import CmTrace.EventLog.Served

/-!
# Paging loses nothing

Pages of items and of edges, followed from the first, hold every row once, and a
window and the pages that continue it hold the rows of its interval.
-/

namespace CmTrace
namespace EventLog

open Text Timeline Collections

/-! ## The items of a window -/

theorem takeWhile_eq_filter {A : Type} {p : A → Bool} : ∀ {xs : List A},
    xs.Pairwise (fun a b => p b = true → p a = true) → xs.takeWhile p = xs.filter p
  | [], _ => rfl
  | x :: xs, h => by
    obtain ⟨hx, hxs⟩ := List.pairwise_cons.mp h
    cases hp : p x with
    | true =>
      rw [List.takeWhile_cons_of_pos hp, List.filter_cons_of_pos hp, takeWhile_eq_filter hxs]
    | false =>
      have hnone : xs.filter p = [] := by
        rw [List.filter_eq_nil_iff]
        intro y hy hpy
        have hpx := hx y hy hpy
        rw [hp] at hpx
        cases hpx
      rw [List.takeWhile_cons_of_neg (by rw [hp]; decide),
        List.filter_cons_of_neg (by rw [hp]; decide), hnone]

theorem false_of_mem_dropWhile {A : Type} {p : A → Bool} : ∀ {xs : List A},
    xs.Pairwise (fun a b => p b = true → p a = true) → ∀ {x}, x ∈ xs.dropWhile p → p x = false
  | [], _, _, hmem => by cases hmem
  | y :: ys, h, x, hmem => by
    obtain ⟨hy, hys⟩ := List.pairwise_cons.mp h
    cases hp : p y with
    | true =>
      rw [List.dropWhile_cons_of_pos hp] at hmem
      exact false_of_mem_dropWhile hys hmem
    | false =>
      rw [List.dropWhile_cons_of_neg (by rw [hp]; decide)] at hmem
      rcases List.mem_cons.mp hmem with rfl | hmem
      · exact hp
      · by_contra hx
        have hpy := hy x hmem (by simpa using hx)
        rw [hp] at hpy
        cases hpy

def inWindow (timeline : UnifiedTimeline) (startMs endMs : Int64) : List Timeline.TimelineItem :=
  timeline.items.filter fun item =>
    startMs.toInt ≤ item.timestampMs ∧ item.timestampMs ≤ endMs.toInt

section

variable {session : EventLogAnalysisSession} {timeline : UnifiedTimeline} {startMs endMs : Int64}

theorem sorted_items (h : Finalized session timeline) :
    timeline.items.Pairwise fun a b => a.timestampMs ≤ b.timestampMs := by
  obtain ⟨placed, unplaced, hitems, -⟩ := h.merged
  rw [hitems]
  refine List.Pairwise.imp ?_ (sortBy_sorted placeOrder (sortBy messageOrder placed))
  intro a b hab
  by_contra hlater
  have hgt : timeOrder a.timestampMs b.timestampMs = .gt :=
    Int.compare_eq_gt.mpr (Int.not_le.mp hlater)
  rw [placeOrder, compareLex, orderOn, hgt] at hab
  cases hab

theorem inWindow_eq (h : Finalized session timeline) (hstart : startMs ≤ endMs) :
    (timeline.items.drop (firstAt timeline startMs)).take
        (afterLastAt timeline endMs - firstAt timeline startMs) =
      inWindow timeline startMs endMs ∧
      firstAt timeline startMs + (inWindow timeline startMs endMs).length =
        afterLastAt timeline endMs := by
  have hsorted := sorted_items h
  have hms : startMs.toInt ≤ endMs.toInt := Int64.le_iff_toInt_le.mp hstart
  generalize hbefore : (fun item : Timeline.TimelineItem => decide (item.timestampMs < startMs.toInt)) = before
  generalize hupto : (fun item : Timeline.TimelineItem => decide (item.timestampMs ≤ endMs.toInt)) = upto
  have hfirst : firstAt timeline startMs = (timeline.items.takeWhile before).length := by
    rw [← hbefore]
    rfl
  have hlast : afterLastAt timeline endMs = (timeline.items.takeWhile upto).length := by
    rw [← hupto]
    rfl
  have hbeforeDown : timeline.items.Pairwise fun a b => before b = true → before a = true := by
    refine hsorted.imp fun hab hb => ?_
    rw [← hbefore] at hb ⊢
    exact decide_eq_true (by have := of_decide_eq_true hb; omega)
  have huptoDown : timeline.items.Pairwise fun a b => upto b = true → upto a = true := by
    refine hsorted.imp fun hab hb => ?_
    rw [← hupto] at hb ⊢
    exact decide_eq_true (by have := of_decide_eq_true hb; omega)
  have himp : ∀ item, before item = true → upto item = true := by
    intro item hitem
    rw [← hbefore] at hitem
    rw [← hupto]
    exact decide_eq_true (by have := of_decide_eq_true hitem; omega)
  have hrest : timeline.items.drop (firstAt timeline startMs) = timeline.items.dropWhile before := by
    rw [hfirst]
    conv_lhs =>
      arg 2
      rw [← @List.takeWhile_append_dropWhile _ before timeline.items]
    exact List.drop_left
  have hin : (timeline.items.dropWhile before).takeWhile upto = inWindow timeline startMs endMs := by
    rw [takeWhile_eq_filter (huptoDown.sublist (List.dropWhile_sublist _))]
    have hnone : (timeline.items.takeWhile before).filter (fun item =>
        startMs.toInt ≤ item.timestampMs ∧ item.timestampMs ≤ endMs.toInt) = [] := by
      rw [List.filter_eq_nil_iff]
      intro item hitem hin
      have hbefore' := List.mem_takeWhile_imp hitem
      rw [← hbefore] at hbefore'
      have := of_decide_eq_true hbefore'
      have := (of_decide_eq_true hin).1
      omega
    conv_rhs => rw [inWindow, ← @List.takeWhile_append_dropWhile _ before timeline.items,
      List.filter_append, hnone, List.nil_append]
    refine List.filter_congr fun item hitem => ?_
    have hafter := false_of_mem_dropWhile hbeforeDown hitem
    rw [← hbefore] at hafter
    have := of_decide_eq_false hafter
    rw [← hupto]
    simp only [decide_eq_decide]
    omega
  have hlen : firstAt timeline startMs + (inWindow timeline startMs endMs).length =
      afterLastAt timeline endMs := by
    have happend : timeline.items.takeWhile upto =
        timeline.items.takeWhile before ++ (timeline.items.dropWhile before).takeWhile upto := by
      conv_lhs => rw [← @List.takeWhile_append_dropWhile _ before timeline.items]
      exact List.takeWhile_append_of_pos fun item hitem => himp item (List.mem_takeWhile_imp hitem)
    rw [hlast, happend, List.length_append, hin, hfirst]
  refine ⟨?_, hlen⟩
  rw [hrest, ← hin]
  have hprefix := List.prefix_iff_eq_take.mp (@List.takeWhile_prefix _ upto
    (l := timeline.items.dropWhile before))
  rw [hin] at hprefix
  rw [hin]
  conv_rhs => rw [ hprefix]
  congr 1
  omega

/-! ## Windows -/

def EventLogAnalysisTimelineWindow.reservedWith (window : EventLogAnalysisTimelineWindow)
    (rows : List Timeline.TimelineItem) : EventLogAnalysisTimelineWindow :=
  { window with
    items := rows
    nextOffset := some u64Max
    omittedItems := u64Max
    serializedBytes := u64Max }

def EventLogAnalysisTimelineWindow.HasRoomFor (window : EventLogAnalysisTimelineWindow)
    (rows : List Timeline.TimelineItem) : Prop :=
  byteLen (window.reservedWith rows).json ≤ maxAnalysisTimelinePageBytes

/-- A window's rows are as many of the interval's first as there is room for. -/
structure LongestPrefix (timeline : UnifiedTimeline) (startMs endMs : Int64) (limit : Nat)
    (window : EventLogAnalysisTimelineWindow) : Prop where
  ofInterval : window.items <+: inWindow timeline startMs endMs
  bounded : window.items.length ≤ limit
  progress : inWindow timeline startMs endMs ≠ [] → window.items ≠ []
  room : window.HasRoomFor window.items
  longest : ∀ rows, rows <+: inWindow timeline startMs endMs → rows.length ≤ limit →
    window.HasRoomFor rows → rows <+: window.items
  offset : window.offset = firstAt timeline startMs
  windowItems : window.windowItems = (inWindow timeline startMs endMs).length
  omittedItems : window.omittedItems = (inWindow timeline startMs endMs).length - window.items.length
  nextOffset : window.nextOffset =
    if window.items.length < (inWindow timeline startMs endMs).length then
      some (window.offset + window.items.length) else none

theorem fixedBytes_reservedWindow (h : Finalized session timeline) {first afterLast : Nat}
    (hfirst : first < 2 ^ 63) (hlast : afterLast < 2 ^ 63) :
    (session.reservedWindow timeline startMs endMs first afterLast).fixedBytes ≤ 523 := by
  have hid := byteLen_sessionId h.validId
  have hoffset := digits_length hfirst
  have hitems := digits_length (Nat.lt_of_le_of_lt (Nat.sub_le afterLast first) hlast)
  have hrevision := digits_u64 session.revision
  have htotal := digits_u64 (session.status timeline).totalItems
  have hstart := byteLen_jsonInt_le startMs
  have hend := byteLen_jsonInt_le endMs
  rw [EventLogAnalysisTimelineWindow.fixedBytes]
  simp only [EventLogAnalysisSession.reservedWindow, EventLogAnalysisSession.status] at *
  omega

theorem window_spec (h : Finalized session timeline) (hitems : ItemsFit timeline)
    (hms : startMs ≤ endMs) {limit : Nat} (hlimit : ValidLimit limit) :
    ∃ window, session.window startMs endMs limit = .ok window ∧
      Exact window.json window.serializedBytes ∧
      LongestPrefix timeline startMs endMs limit window ∧
      window.reservedWith [] = session.reservedWindow timeline startMs endMs
        (firstAt timeline startMs) (afterLastAt timeline endMs) := by
  obtain ⟨hslice, hcount⟩ := inWindow_eq h hms
  have hlast : afterLastAt timeline endMs ≤ timeline.items.length :=
    (List.takeWhile_prefix _).length_le
  have hlength := h.itemsLength
  have hcandidates : (timeline.items.drop (firstAt timeline startMs)).take
      (min (firstAt timeline startMs + limit) (afterLastAt timeline endMs) -
        firstAt timeline startMs) = (inWindow timeline startMs endMs).take limit := by
    rw [← hslice, List.take_take]
    congr 1
    omega
  have hnot : ¬ endMs < startMs := Int64.not_lt.mpr hms
  rw [EventLogAnalysisSession.window, finalizedTimeline_eq h]
  simp only [validatedTimelineLimit_of_valid hlimit, if_neg hnot]
  rw [hcandidates]
  generalize hfirst : firstAt timeline startMs = first at hcount ⊢
  generalize hafter : afterLastAt timeline endMs = afterLast at hcount hlast ⊢
  generalize hreserved : session.reservedWindow timeline startMs endMs first afterLast = reserved
  have hfixed : reserved.fixedBytes ≤ 523 := by
    rw [← hreserved]
    exact fixedBytes_reservedWindow h (by omega) (by omega)
  have hempty : byteLen reserved.json = reserved.fixedBytes + 40 + 20 := by
    rw [byteLen_window, ← hreserved]
    simp only [EventLogAnalysisSession.reservedWindow, weight_nil, byteLen_next_max, digits_u64Max]
  have hroom : ∀ (window : EventLogAnalysisTimelineWindow) rows,
      window.fixedBytes = reserved.fixedBytes → (window.HasRoomFor rows ↔
        FitsReserved (reserved.fixedBytes + 40 + 20) (weight Wire.item rows)) := by
    intro window rows hsame
    have hbytes : byteLen (window.reservedWith rows).json =
        reserved.fixedBytes + 40 + 20 + (weight Wire.item rows - 1) := by
      have hfields : (window.reservedWith rows).fixedBytes = window.fixedBytes := rfl
      rw [byteLen_window, hfields, hsame]
      simp only [EventLogAnalysisTimelineWindow.reservedWith, byteLen_next_max, digits_u64Max]
      omega
    rw [EventLogAnalysisTimelineWindow.HasRoomFor, hbytes, FitsReserved]
  have hbudget : maxAnalysisTimelinePageBytes = 8388608 := rfl
  have hitem : maxSerializedTimelineItemBytes = 131072 := rfl
  have hwide : 99 ≤ reserved.fixedBytes := by
    rw [EventLogAnalysisTimelineWindow.fixedBytes]
    omega
  have hlate : ∀ k, byteLen (jsonOption decimal
      (if first + k < afterLast then some (first + k) else none)) +
        digits (afterLast - (first + k)) ≤ 40 := by
    intro k
    have hnext := @byteLen_next_le afterLast (by omega) (first + k)
    have hleft := @digits_length (afterLast - (first + k)) (by omega)
    omega
  obtain ⟨k, n, hfill, hle, hpos, hn, hnle, hfits, hlongest⟩ := @fillResponse_small _ _ Wire.item
    EventLogAnalysisTimelineWindow.json ((inWindow timeline startMs endMs).take limit)
    reserved.fixedBytes 40 maxSerializedTimelineItemBytes
    (fun k => byteLen (jsonOption decimal
      (if first + k < afterLast then some (first + k) else none)) + digits (afterLast - (first + k)))
    (fun selected serializedBytes =>
      { reserved with
        items := ((inWindow timeline startMs endMs).take limit).take selected
        nextOffset := if first + selected < afterLast then some (first + selected) else none
        omittedItems := afterLast - (first + selected)
        serializedBytes := serializedBytes })
    (fun item hmem => hitems item (List.mem_of_mem_filter (List.mem_of_mem_take hmem)))
    (fun k n => byteLen_window _) hlate hwide (by omega)
    "timeline item".toList "timeline window".toList
  rw [hempty, hfill]
  rw [List.length_take] at hle
  have hlength : (((inWindow timeline startMs endMs).take limit).take k).length = k := by
    rw [List.length_take, List.length_take]
    omega
  refine ⟨_, rfl, ⟨hn, hnle⟩, ?_, by rw [← hreserved]; rfl⟩
  have hpositive := hlimit.1
  constructor
  case ofInterval => exact (List.take_prefix _ _).trans (List.take_prefix _ _)
  case bounded =>
    show (((inWindow timeline startMs endMs).take limit).take k).length ≤ limit
    omega
  case progress =>
    intro hsome
    have hmore : (inWindow timeline startMs endMs).take limit ≠ [] := by
      rw [← List.length_pos_iff, List.length_take]
      have := List.length_pos_iff.mpr hsome
      omega
    have := hpos hmore
    show ((inWindow timeline startMs endMs).take limit).take k ≠ []
    rw [← List.length_pos_iff]
    omega
  case room => exact (hroom _ _ rfl).mpr hfits
  case longest =>
    intro rows hrows hshort hrowsRoom
    have hrowsFit := (hroom _ _ rfl).mp hrowsRoom
    have hrowsLen := hrows.length_le
    rw [List.prefix_iff_eq_take.mp hrows] at hrowsFit ⊢
    have htake : ∀ j ≤ limit, ((inWindow timeline startMs endMs).take limit).take j =
        (inWindow timeline startMs endMs).take j := by
      intro j hj
      rw [List.take_take, Nat.min_eq_left hj]
    show (inWindow timeline startMs endMs).take rows.length <+:
      ((inWindow timeline startMs endMs).take limit).take k
    rw [htake k (by omega)]
    refine List.take_prefix_take_left ?_
    by_contra hlonger
    refine hlongest rows.length (by omega) ?_ ?_
    · rw [List.length_take]
      omega
    · rw [htake rows.length hshort]
      exact hrowsFit
  case offset =>
    rw [← hreserved]
    exact hfirst.symm
  case windowItems =>
    rw [← hreserved]
    show afterLast - first = _
    omega
  case omittedItems =>
    show afterLast - (first + k) = _ - (((inWindow timeline startMs endMs).take limit).take k).length
    omega
  case nextOffset =>
    rw [← hreserved]
    show (if first + k < afterLast then some (first + k) else none) =
      if (((inWindow timeline startMs endMs).take limit).take k).length <
          (inWindow timeline startMs endMs).length then
        some (first + (((inWindow timeline startMs endMs).take limit).take k).length) else none
    rw [hlength, ← hcount]
    simp only [Nat.add_lt_add_iff_left]

theorem collect_window (h : Finalized session timeline) (hitems : ItemsFit timeline)
    (hms : startMs ≤ endMs) {limit limit' : Nat} (hlimit' : ValidLimit limit')
    {window : EventLogAnalysisTimelineWindow}
    (hwindow : LongestPrefix timeline startMs endMs limit window) :
    collectRows pageView session.page limit' window.omittedItems window.omittedItems
      window.nextOffset = some ((inWindow timeline startMs endMs).drop window.items.length) := by
  obtain ⟨hslice, hcount⟩ := inWindow_eq h hms
  have hlast : afterLastAt timeline endMs ≤ timeline.items.length :=
    (List.takeWhile_prefix _).length_le
  have homitted := hwindow.omittedItems
  rw [hwindow.nextOffset, hwindow.offset]
  split_ifs with hmore
  · have hcollect := collect_rows (page_spec h hitems) (validLimit_min hlimit') window.omittedItems
      window.omittedItems (firstAt timeline startMs + window.items.length) (Nat.le_refl _) (by omega)
    rw [hcollect, ← hslice, List.drop_take, List.drop_drop]
    congr 2
    omega
  · have hnone : window.omittedItems = 0 := by omega
    rw [hnone, collectRows, List.drop_of_length_le (Nat.not_lt.mp hmore)]

/-- Paging a session's timeline loses no item and no edge. -/
structure Lossless (session : EventLogAnalysisSession) (timeline : UnifiedTimeline) : Prop where
  pages : ∀ limits : List Nat, (∀ limit ∈ limits, ValidLimit limit) →
    ∃ pages next, followPages pageView session.page (some 0) limits = .ok (pages, next) ∧
      pages.flatMap (·.items) = timeline.items.take (reached timeline.items next) ∧
      (∀ page ∈ pages, Exact page.json page.serializedBytes ∧
        (timeline.items ≠ [] → page.items ≠ [])) ∧
      (timeline.items.length < limits.length → next = none)
  edges : ∀ limits : List Nat, (∀ limit ∈ limits, ValidLimit limit) →
    ∃ pages next, followPages edgeView session.edgePage (some 0) limits = .ok (pages, next) ∧
      pages.flatMap (·.edges) = timeline.edges.take (reached timeline.edges next) ∧
      (∀ page ∈ pages, Exact page.json page.serializedBytes ∧
        (timeline.edges ≠ [] → page.edges ≠ [])) ∧
      (timeline.edges.length < limits.length → next = none)
  windows : ∀ (startMs endMs : Int64) (limit : Nat), startMs ≤ endMs → ValidLimit limit →
    ∃ window, session.window startMs endMs limit = .ok window ∧
      Exact window.json window.serializedBytes ∧ LongestPrefix timeline startMs endMs limit window ∧
      ∀ limit', ValidLimit limit' →
        collectRows pageView session.page limit' window.omittedItems window.omittedItems
          window.nextOffset = some ((inWindow timeline startMs endMs).drop window.items.length)

end

def oneItem : Timeline.TimelineItem :=
  ⟨0, .info, "started".toList,
    .log ⟨"C:/a.log".toList, none, 1, "C:/a.log".toList, none, none, 1⟩⟩

def oneEdge : Timeline.TimelineCorrelationEdge :=
  ⟨"edge".toList, "a".toList, some "b".toList, ⟨.sessionId, "7".toList⟩, .exact, .high, [], [], none⟩

def oneTimeline : UnifiedTimeline := { merge [oneItem] [] with edges := [oneEdge] }

def oneSession : EventLogAnalysisSession :=
  ⟨"00000000-0000-4000-8000-000000000000".toList, 1, some oneTimeline, (0, 1, 0)⟩

theorem merge_single (item : Timeline.TimelineItem) : (merge [item] []).items = [item] := by
  rw [merge_items]
  exact List.perm_singleton.mp (sortBy_perm Timeline.itemOrder [item])

theorem finalized_one : Finalized oneSession oneTimeline := by
  refine ⟨rfl, by decide, ⟨[oneItem], [], rfl, rfl⟩, ?_, by decide⟩
  have hitems : oneTimeline.items = [oneItem] := merge_single oneItem
  rw [hitems]
  decide

set_option maxRecDepth 20000 in
theorem itemsFit_one : ItemsFit oneTimeline := by
  intro item hitem
  have hitems : oneTimeline.items = [oneItem] := merge_single oneItem
  rw [hitems, List.mem_singleton] at hitem
  rw [hitem]
  decide

set_option maxRecDepth 20000 in
theorem edgesFit_one : EdgesFit oneSession oneTimeline := by
  intro offset hoffset
  have hzero : offset = 0 := Nat.lt_one_iff.mp hoffset
  rw [hzero]
  exact ⟨320, by decide, by decide⟩

def EventLogAnalysisTimelineWindow.holding (window : EventLogAnalysisTimelineWindow)
    (rows : List Timeline.TimelineItem) (serializedBytes : Nat) : EventLogAnalysisTimelineWindow :=
  { window with
    items := rows
    nextOffset := if rows.length < window.windowItems then some (window.offset + rows.length)
      else none
    omittedItems := window.windowItems - rows.length
    serializedBytes := serializedBytes }

def longItem (n : Nat) : Timeline.TimelineItem := { oneItem with message := List.replicate n 'x' }

theorem byteLen_plain (n : Nat) : byteLen (jsonString (List.replicate n 'x')) = n + 2 := by
  have hquote : ('"' : Char).utf8Size = 1 := rfl
  have hletter : ('x' : Char).utf8Size = 1 := rfl
  have hescape : jsonEscape 'x' = ['x'] := by decide
  have hbody : byteLen ((List.replicate n 'x').flatMap jsonEscape) = n := by
    induction n with
    | zero => rfl
    | succ n ih =>
      rw [List.replicate_succ, List.flatMap_cons, hescape, byteLen_append, ih, byteLen_cons,
        byteLen_nil, hletter]
      omega
  rw [jsonString, byteLen_cons, byteLen_append, byteLen_cons, byteLen_nil, hquote, hbody]
  omega

set_option maxRecDepth 20000 in
theorem byteLen_longItem (n : Nat) : byteLen (Wire.item (longItem n)) = n + 178 := by
  have hzero : byteLen (Wire.item (longItem 0)) = 178 := by decide
  have hplain := byteLen_plain n
  have hnone := byteLen_plain 0
  rw [Wire.item, byteLen_jsonObject (List.cons_ne_nil _ _)] at hzero ⊢
  simp only [longItem, List.map_cons, List.map_nil, List.sum_cons, List.sum_nil] at hzero ⊢
  omega

def fullItems : List Timeline.TimelineItem := longItem 127171 :: List.replicate 64 (longItem 128900)

def fullTimeline : UnifiedTimeline := merge fullItems []

def fullSession : EventLogAnalysisSession :=
  ⟨"00000000-0000-4000-8000-000000000000".toList, 1, some fullTimeline, (0, 65, 0)⟩

theorem perm_fullTimeline : fullTimeline.items.Perm fullItems := by
  rw [fullTimeline, merge_items]
  exact sortBy_perm Timeline.itemOrder fullItems

theorem length_fullTimeline : fullTimeline.items.length = 65 := by
  rw [perm_fullTimeline.length_eq, fullItems, List.length_cons, List.length_replicate]

theorem mem_fullTimeline {item : Timeline.TimelineItem} (h : item ∈ fullTimeline.items) :
    item = longItem 127171 ∨ item = longItem 128900 := by
  rcases List.mem_cons.mp (perm_fullTimeline.mem_iff.mp h) with h | h
  · exact .inl h
  · exact .inr (List.eq_of_mem_replicate h)

theorem timestamp_fullTimeline {item : Timeline.TimelineItem} (h : item ∈ fullTimeline.items) :
    item.timestampMs = 0 := by
  rcases mem_fullTimeline h with rfl | rfl <;> rfl

theorem weight_replicate (count n : Nat) :
    weight Wire.item (List.replicate count (longItem n)) = count * (n + 179) := by
  induction count with
  | zero => rw [List.replicate_zero, weight_nil, Nat.zero_mul]
  | succ count ih =>
    rw [List.replicate_succ, weight_cons, ih, byteLen_longItem, Nat.succ_mul]
    omega

theorem weight_fullTimeline : weight Wire.item fullTimeline.items = 8388406 := by
  have hperm : weight Wire.item fullTimeline.items = weight Wire.item fullItems :=
    (perm_fullTimeline.map _).sum_eq
  have hlong := weight_replicate 64 128900
  have hshort := byteLen_longItem 127171
  rw [hperm, fullItems, weight_cons]
  omega

theorem finalized_full : Finalized fullSession fullTimeline := by
  refine ⟨rfl, by decide, ⟨fullItems, [], rfl, rfl⟩, ?_, by decide⟩
  rw [length_fullTimeline]
  decide

theorem itemsFit_full : ItemsFit fullTimeline := by
  intro item hitem
  have hmax : maxSerializedTimelineItemBytes = 131072 := rfl
  rcases mem_fullTimeline hitem with rfl | rfl
  · rw [byteLen_longItem]
    omega
  · rw [byteLen_longItem]
    omega

theorem inWindow_full : inWindow fullTimeline 0 0 = fullTimeline.items := by
  rw [inWindow, List.filter_eq_self]
  intro item hitem
  rw [timestamp_fullTimeline hitem]
  rfl

theorem firstAt_full : firstAt fullTimeline 0 = 0 := by
  have hnone : fullTimeline.items.takeWhile
      (fun item => decide (item.timestampMs < (0 : Int64).toInt)) = [] := by
    rw [takeWhile_eq_filter, List.filter_eq_nil_iff]
    · intro item hitem
      rw [timestamp_fullTimeline hitem]
      decide
    · refine (sorted_items finalized_full).imp fun hab hb => ?_
      have := of_decide_eq_true hb
      exact decide_eq_true (by omega)
  rw [firstAt, partitionPoint, hnone, List.length_nil]

end EventLog
end CmTrace
