import CmTrace.Collections.Bisect
import CmTrace.LogStore.Aggregate

/-!
# Merged files and the entries around one

The entries of several files in one list, by time, and the search of the entries
that other files have within some time of one of them.
-/

namespace CmTrace
namespace Merged

open Std Collections Js
open LogStore (LogEntry intOrder natOrder)

structure CorrelatedEntry where
  entry : LogEntry
  deltaMs : Int
  fileColor : JsString
  deriving DecidableEq

section Merge

variable (localeCompare : JsString → JsString → Ordering)

def compareEntries (a b : LogEntry) : Ordering :=
  let byFile := (localeCompare a.filePath b.filePath).then (natOrder a.lineNumber b.lineNumber)
  match a.timestamp, b.timestamp with
  | some x, some y => if x ≠ y then intOrder x y else byFile
  | some _, none   => .lt
  | none, some _   => .gt
  | none, none     => byFile

def mergeEntries (entriesByFile : List (JsString × List LogEntry)) : List LogEntry :=
  (sortBy (compareEntries localeCompare) (entriesByFile.flatMap Prod.snd)).mapIdx
    fun i entry => { entry with id := i }

theorem compareEntries_eq (a b : LogEntry) : compareEntries localeCompare a b =
    compareLex (orderOn (someFirst intOrder) (·.timestamp))
      (compareLex (orderOn localeCompare (·.filePath)) (orderOn natOrder (·.lineNumber))) a b := by
  rw [compareEntries, compareLex, compareLex, orderOn, orderOn, orderOn]
  cases a.timestamp with
  | none => cases b.timestamp <;> rfl
  | some x => cases b.timestamp with
    | none => rfl
    | some y =>
      show (if x ≠ y then intOrder x y else _) = (intOrder x y).then _
      by_cases hxy : x = y
      · rw [if_neg (not_not.mpr hxy), hxy, show intOrder y y = .eq from ReflCmp.compare_self,
          Ordering.eq_then]
      · have hne : intOrder x y ≠ .eq := fun h => hxy (LawfulEqCmp.eq_of_compare h)
        rw [if_pos hxy]
        cases hcmp : intOrder x y with
        | lt => rfl
        | gt => rfl
        | eq => exact absurd hcmp hne

instance [TransCmp localeCompare] : TransCmp (compareEntries localeCompare) := by
  rw [show compareEntries localeCompare = compareLex (orderOn (someFirst intOrder) (·.timestamp))
      (compareLex (orderOn localeCompare (·.filePath)) (orderOn natOrder (·.lineNumber))) from
    funext fun a => funext fun b => compareEntries_eq localeCompare a b]
  infer_instance

end Merge

/-! ## The search -/

def scanWindow (targetEntry : LogEntry) (targetTs windowEnd : Int)
    (colorAssignments : JsString → Option JsString) : List LogEntry → List CorrelatedEntry
  | [] => []
  | entry :: entries =>
    match entry.timestamp with
    | none => []
    | some timestamp =>
      if timestamp > windowEnd then []
      else if entry.filePath = targetEntry.filePath then
        scanWindow targetEntry targetTs windowEnd colorAssignments entries
      else if entry.id = targetEntry.id then
        scanWindow targetEntry targetTs windowEnd colorAssignments entries
      else
        { entry
          deltaMs   := timestamp - targetTs
          fileColor := (colorAssignments entry.filePath).getD (js "#888") } ::
            scanWindow targetEntry targetTs windowEnd colorAssignments entries

def startsAt (windowStart : Int) (entry : LogEntry) : Bool :=
  match entry.timestamp with
  | none => true
  | some timestamp => decide (timestamp ≥ windowStart)

def findCorrelatedEntries (entries : List LogEntry) (targetEntry : LogEntry) (windowMs : Int)
    (colorAssignments : JsString → Option JsString) : List CorrelatedEntry :=
  match targetEntry.timestamp with
  | none => []
  | some targetTs =>
    let timestampedEnd :=
      bisect (stopsAt (fun entry => entry.timestamp.isNone) entries) 0 entries.length
    let lo := bisect (stopsAt (startsAt (targetTs - windowMs)) entries) 0 timestampedEnd
    let results := scanWindow targetEntry targetTs (targetTs + windowMs) colorAssignments
      ((entries.take timestampedEnd).drop lo)
    sortBy (orderOn natOrder fun result => result.deltaMs.natAbs) results

def isCorrelated (targetEntry : LogEntry) (targetTs windowMs : Int) (entry : LogEntry) : Bool :=
  decide (entry.filePath ≠ targetEntry.filePath) &&
    entry.timestamp.any fun timestamp => decide (|timestamp - targetTs| ≤ windowMs)

/-! ## What the merge leaves -/

/-- An entry before another has a time if that one has, and none that is later. -/
def Ordered (entries : List LogEntry) : Prop :=
  entries.Pairwise fun a b => (someFirst intOrder a.timestamp b.timestamp).isLE

def unnumbered (entry : LogEntry) : LogEntry := { entry with id := 0 }

section Merge

variable {localeCompare : JsString → JsString → Ordering}
  (entriesByFile : List (JsString × List LogEntry))

theorem mergeEntries_ids :
    (mergeEntries localeCompare entriesByFile).map (·.id) =
      (List.range (mergeEntries localeCompare entriesByFile).length).map Int.ofNat := by
  refine List.ext_getElem (by simp) fun i hi _ => ?_
  rw [List.getElem_map, List.getElem_map, List.getElem_range]
  simp only [mergeEntries, List.getElem_mapIdx]
  rfl

theorem mergeEntries_perm : ((mergeEntries localeCompare entriesByFile).map unnumbered).Perm
    ((entriesByFile.flatMap Prod.snd).map unnumbered) := by
  have hnumbers : ∀ entries : List LogEntry, (entries.mapIdx fun i entry =>
      { entry with id := i }).map unnumbered = entries.map unnumbered := by
    intro entries
    refine List.ext_getElem (by simp) fun i hi _ => ?_
    rw [List.getElem_map, List.getElem_map, List.getElem_mapIdx]
    rfl
  rw [mergeEntries, hnumbers]
  exact (sortBy_perm _ _).map _

theorem id_inj_of_mem {a b : LogEntry} (ha : a ∈ mergeEntries localeCompare entriesByFile)
    (hb : b ∈ mergeEntries localeCompare entriesByFile) (h : a.id = b.id) : a = b := by
  have hnodup : ((mergeEntries localeCompare entriesByFile).map (·.id)).Nodup := by
    rw [mergeEntries_ids]
    exact List.nodup_range.map Int.ofNat_injective
  exact List.inj_on_of_nodup_map hnodup ha hb h

theorem mergeEntries_ordered [TransCmp localeCompare] :
    Ordered (mergeEntries localeCompare entriesByFile) := by
  have hsorted := sortBy_sorted (c := compareEntries localeCompare) (entriesByFile.flatMap Prod.snd)
  refine List.pairwise_iff_getElem.mpr fun i j hi hj hij => ?_
  have hle := List.pairwise_iff_getElem.mp hsorted i j (by simpa [mergeEntries] using hi)
    (by simpa [mergeEntries] using hj) hij
  rw [compareEntries_eq] at hle
  simp only [mergeEntries, List.getElem_mapIdx]
  exact (Ordering.isLE_then_iff_and.mp hle).1

end Merge

/-! ## What the search finds -/

def toCorrelated (targetTs : Int) (colorAssignments : JsString → Option JsString)
    (entry : LogEntry) : CorrelatedEntry :=
  { entry
    deltaMs   := entry.timestamp.getD 0 - targetTs
    fileColor := (colorAssignments entry.filePath).getD (js "#888") }

def isScanned (targetEntry : LogEntry) (windowEnd : Int) (entry : LogEntry) : Bool :=
  decide (entry.filePath ≠ targetEntry.filePath) && decide (entry.id ≠ targetEntry.id) &&
    entry.timestamp.any fun timestamp => decide (timestamp ≤ windowEnd)

section Search

variable {entries : List LogEntry} {targetEntry : LogEntry} {targetTs windowMs : Int}
  {colorAssignments : JsString → Option JsString}

theorem timestamp_le {a b : LogEntry} {x y : Int}
    (h : (someFirst intOrder a.timestamp b.timestamp).isLE) (ha : a.timestamp = some x)
    (hb : b.timestamp = some y) : x ≤ y := by
  rw [ha, hb] at h
  exact Std.isLE_compare.mp h

theorem scanWindow_eq {windowEnd : Int} (hordered : Ordered entries)
    (hsome : ∀ entry ∈ entries, entry.timestamp.isSome) :
    scanWindow targetEntry targetTs windowEnd colorAssignments entries =
      (entries.filter (isScanned targetEntry windowEnd)).map
        (toCorrelated targetTs colorAssignments) := by
  induction entries with
  | nil => rfl
  | cons entry entries ih =>
    obtain ⟨hfirst, hrest⟩ := List.pairwise_cons.mp hordered
    have ih := ih hrest fun e he => hsome e (List.mem_cons_of_mem _ he)
    obtain ⟨timestamp, htime⟩ := Option.isSome_iff_exists.mp (hsome entry List.mem_cons_self)
    rw [scanWindow, htime, ih]
    show (if timestamp > windowEnd then [] else _) = _
    by_cases hafter : timestamp > windowEnd
    · have hnone : (entry :: entries).filter (isScanned targetEntry windowEnd) = [] := by
        refine List.filter_eq_nil_iff.mpr fun e he hscanned => ?_
        rw [isScanned, Bool.and_eq_true] at hscanned
        obtain ⟨t, ht, hle⟩ := (Option.any_eq_true _ _).mp hscanned.2
        rcases List.mem_cons.mp he with rfl | he
        · obtain rfl := Option.some.inj (htime.symm.trans ht)
          exact absurd (of_decide_eq_true hle) (by omega)
        · have := timestamp_le (hfirst e he) htime ht
          exact absurd (of_decide_eq_true hle) (by omega)
      rw [if_pos hafter, hnone, List.map_nil]
    · rw [if_neg hafter]
      have hin : entry.timestamp.any (fun t => decide (t ≤ windowEnd)) = true := by
        rw [htime]
        exact decide_eq_true (by omega)
      by_cases hfile : entry.filePath = targetEntry.filePath
      · rw [if_pos hfile, List.filter_cons_of_neg (by simp [isScanned, hfile])]
      · rw [if_neg hfile]
        by_cases hid : entry.id = targetEntry.id
        · rw [if_pos hid, List.filter_cons_of_neg (by simp [isScanned, hid])]
        · rw [if_neg hid, List.filter_cons_of_pos (by simp [isScanned, hfile, hid, hin]),
            List.map_cons, toCorrelated, htime]
          rfl

def isFound (targetEntry : LogEntry) (targetTs windowMs : Int) (entry : LogEntry) : Bool :=
  isCorrelated targetEntry targetTs windowMs entry && decide (entry.id ≠ targetEntry.id)

theorem isFound_iff {entry : LogEntry} : isFound targetEntry targetTs windowMs entry = true ↔
    isScanned targetEntry (targetTs + windowMs) entry = true ∧
      ∃ t, entry.timestamp = some t ∧ targetTs - windowMs ≤ t := by
  simp only [isFound, isCorrelated, isScanned, Bool.and_eq_true, decide_eq_true_iff,
    Option.any_eq_true, abs_le]
  constructor
  · rintro ⟨⟨hfile, t, ht, hlow, hhigh⟩, hid⟩
    exact ⟨⟨⟨hfile, hid⟩, t, ht, by omega⟩, t, ht, by omega⟩
  · rintro ⟨⟨⟨hfile, hid⟩, t, ht, hhigh⟩, t', ht', hlow⟩
    obtain rfl := Option.some.inj (ht.symm.trans ht')
    exact ⟨⟨hfile, t, ht, by omega, by omega⟩, hid⟩

theorem findCorrelatedEntries_eq (hordered : Ordered entries)
    (htarget : targetEntry.timestamp = some targetTs) :
    findCorrelatedEntries entries targetEntry windowMs colorAssignments =
      sortBy (orderOn natOrder fun result => result.deltaMs.natAbs)
        ((entries.filter (isFound targetEntry targetTs windowMs)).map
          (toCorrelated targetTs colorAssignments)) := by
  rw [findCorrelatedEntries, htarget]
  dsimp only
  -- the first search ends where the times end
  have hnone : entries.Pairwise fun a b =>
      a.timestamp.isNone = true → b.timestamp.isNone = true := by
    refine hordered.imp fun {a b} hle ha => ?_
    rw [Option.isNone_iff_eq_none.mp ha] at hle
    cases hb : b.timestamp with
    | none => rfl
    | some t =>
      rw [hb] at hle
      cases hle
  obtain ⟨hend, htimes, hrest⟩ := bisect_splits hnone (Nat.le_refl entries.length)
  rw [List.take_length] at hrest
  -- the second one where the window begins
  have hstart : entries.Pairwise fun a b => startsAt (targetTs - windowMs) a = true →
      startsAt (targetTs - windowMs) b = true := by
    refine hordered.imp fun {a b} hle ha => ?_
    cases hb : b.timestamp with
    | none => rw [startsAt, hb]
    | some y =>
      cases ha' : a.timestamp with
      | none =>
        rw [ha', hb] at hle
        cases hle
      | some x =>
        have hxy := timestamp_le hle ha' hb
        rw [startsAt, ha'] at ha
        rw [startsAt, hb]
        exact decide_eq_true (by have := of_decide_eq_true ha; omega)
  obtain ⟨hlo, hbefore, hwindow⟩ := bisect_splits hstart hend
  generalize bisect (stopsAt (fun entry => entry.timestamp.isNone) entries) 0 entries.length = m
    at *
  generalize bisect (stopsAt (startsAt (targetTs - windowMs)) entries) 0 m = lo at *
  have hsome : ∀ entry ∈ (entries.take m).drop lo, entry.timestamp.isSome := by
    intro entry he
    have := htimes entry (List.mem_of_mem_drop he)
    rwa [← Option.not_isNone, Bool.not_eq_true']
  have hinside : Ordered ((entries.take m).drop lo) :=
    (hordered.sublist (List.take_sublist _ _)).sublist (List.drop_sublist _ _)
  -- no entry before the window or without a time is found
  have hnotBefore : (entries.take lo).filter (isFound targetEntry targetTs windowMs) = [] := by
    refine List.filter_eq_nil_iff.mpr fun entry he hfound => ?_
    obtain ⟨-, t, ht, hlow⟩ := isFound_iff.mp hfound
    have hout := hbefore entry he
    rw [startsAt, ht] at hout
    exact of_decide_eq_false hout hlow
  have hnotAfter : (entries.drop m).filter (isFound targetEntry targetTs windowMs) = [] := by
    refine List.filter_eq_nil_iff.mpr fun entry he hfound => ?_
    obtain ⟨-, t, ht, -⟩ := isFound_iff.mp hfound
    have hout := hrest entry he
    rw [ht] at hout
    cases hout
  have hinWindow : ((entries.take m).drop lo).filter
      (isScanned targetEntry (targetTs + windowMs)) =
        ((entries.take m).drop lo).filter (isFound targetEntry targetTs windowMs) := by
    refine List.filter_congr fun entry he => ?_
    rw [Bool.eq_iff_iff, isFound_iff]
    refine ⟨fun hscanned => ⟨hscanned, ?_⟩, And.left⟩
    obtain ⟨t, ht⟩ := Option.isSome_iff_exists.mp (hsome entry he)
    have hin := hwindow entry he
    rw [startsAt, ht] at hin
    exact ⟨t, ht, of_decide_eq_true hin⟩
  have hsplit : entries = entries.take lo ++ ((entries.take m).drop lo ++ entries.drop m) := by
    conv_lhs => rw [← List.take_append_drop m entries, ← List.take_append_drop lo (entries.take m)]
    rw [List.take_take, Nat.min_eq_left hlo, List.append_assoc]
  rw [scanWindow_eq hinside hsome, hinWindow]
  conv_rhs => rw [hsplit, List.filter_append, List.filter_append, hnotBefore, hnotAfter,
    List.nil_append, List.append_nil]

end Search

/-! ## The search in merged files -/

section Merge

variable {localeCompare : JsString → JsString → Ordering}
  {entriesByFile : List (JsString × List LogEntry)}

theorem mergeEntries_nodup : (mergeEntries localeCompare entriesByFile).Nodup := by
  refine List.Nodup.of_map (·.id) ?_
  rw [mergeEntries_ids]
  exact List.nodup_range.map Int.ofNat_injective

theorem filter_isFound {targetEntry : LogEntry} {targetTs windowMs : Int}
    (hmem : targetEntry ∈ mergeEntries localeCompare entriesByFile) :
    (mergeEntries localeCompare entriesByFile).filter (isFound targetEntry targetTs windowMs) =
      (mergeEntries localeCompare entriesByFile).filter
        (isCorrelated targetEntry targetTs windowMs) := by
  refine List.filter_congr fun entry he => ?_
  rw [isFound]
  cases hcorrelated : isCorrelated targetEntry targetTs windowMs entry with
  | false => rfl
  | true =>
    have hid : entry.id ≠ targetEntry.id := by
      intro hid
      rw [isCorrelated, Bool.and_eq_true, decide_eq_true_iff] at hcorrelated
      exact hcorrelated.1 (congrArg LogEntry.filePath (id_inj_of_mem _ he hmem hid))
    rw [Bool.true_and]
    exact decide_eq_true hid

/-- The merged list has all entries, numbered anew and by time, and the search in
it finds the entries of other files in the window, each once, the nearest first. -/
theorem findCorrelatedEntries_exact [TransCmp localeCompare]
    (entriesByFile : List (JsString × List LogEntry)) :
    ((mergeEntries localeCompare entriesByFile).map unnumbered).Perm
        ((entriesByFile.flatMap Prod.snd).map unnumbered) ∧
      (mergeEntries localeCompare entriesByFile).map (·.id) =
        (List.range (entriesByFile.flatMap Prod.snd).length).map Int.ofNat ∧
      Ordered (mergeEntries localeCompare entriesByFile) ∧
      ∀ targetEntry ∈ mergeEntries localeCompare entriesByFile, ∀ targetTs,
        targetEntry.timestamp = some targetTs → ∀ windowMs, 0 ≤ windowMs →
        ∀ colorAssignments : JsString → Option JsString, ∀ results,
        results = findCorrelatedEntries (mergeEntries localeCompare entriesByFile) targetEntry
          windowMs colorAssignments →
        (results.map (·.entry)).Perm ((mergeEntries localeCompare entriesByFile).filter
          (isCorrelated targetEntry targetTs windowMs)) ∧
        (results.map (·.entry)).Nodup ∧
        (results.Pairwise fun a b => |a.deltaMs| ≤ |b.deltaMs|) ∧
        ∀ result ∈ results, result.entry.timestamp = some (targetTs + result.deltaMs) := by
  refine ⟨mergeEntries_perm _, ?_, mergeEntries_ordered _, ?_⟩
  · rw [mergeEntries_ids, mergeEntries, List.length_mapIdx, (sortBy_perm _ _).length_eq]
  · rintro targetEntry hmem targetTs htime windowMs - colorAssignments results rfl
    rw [findCorrelatedEntries_eq (mergeEntries_ordered _) htime, filter_isFound hmem]
    have hperm := sortBy_perm (orderOn natOrder fun result => result.deltaMs.natAbs)
      (((mergeEntries localeCompare entriesByFile).filter
        (isCorrelated targetEntry targetTs windowMs)).map (toCorrelated targetTs colorAssignments))
    have hentries := hperm.map (·.entry)
    rw [List.map_map, show (·.entry) ∘ toCorrelated targetTs colorAssignments = id from rfl,
      List.map_id] at hentries
    refine ⟨hentries, hentries.nodup_iff.mpr (mergeEntries_nodup.filter _), ?_, ?_⟩
    · have hsorted := sortBy_sorted (c := orderOn natOrder fun result => result.deltaMs.natAbs)
        (((mergeEntries localeCompare entriesByFile).filter
          (isCorrelated targetEntry targetTs windowMs)).map
            (toCorrelated targetTs colorAssignments))
      refine List.Pairwise.imp (fun {a b} hle => ?_) hsorted
      have hnat := Std.isLE_compare.mp hle
      rw [Int.abs_eq_natAbs, Int.abs_eq_natAbs]
      exact Int.ofNat_le.mpr hnat
    · intro result hresult
      obtain ⟨entry, he, rfl⟩ := List.mem_map.mp (hperm.mem_iff.mp hresult)
      have hin := (List.mem_filter.mp he).2
      rw [isCorrelated, Bool.and_eq_true] at hin
      obtain ⟨t, ht, -⟩ := (Option.any_eq_true _ _).mp hin.2
      show entry.timestamp = some (targetTs + (entry.timestamp.getD 0 - targetTs))
      rw [ht, Option.getD_some]
      congr 1
      omega

end Merge

def sampleFiles : List (JsString × List LogEntry) :=
  [(js "a.log", [⟨7, js "a.log", 1, some 5, [], []⟩, ⟨8, js "a.log", 2, some 9, [], []⟩]),
    (js "b.log", [⟨7, js "b.log", 1, some 9, [], []⟩, ⟨9, js "b.log", 2, none, [], []⟩])]

theorem findCorrelatedEntries_exact_sample :
    ((findCorrelatedEntries (mergeEntries compareStrings sampleFiles)
      ⟨2, js "b.log", 1, some 9, [], []⟩ 4 fun _ => none).map (·.entry)).Perm
        [⟨0, js "a.log", 1, some 5, [], []⟩, ⟨1, js "a.log", 2, some 9, [], []⟩] := by
  have hmerged : mergeEntries compareStrings sampleFiles =
      [⟨0, js "a.log", 1, some 5, [], []⟩, ⟨1, js "a.log", 2, some 9, [], []⟩,
        ⟨2, js "b.log", 1, some 9, [], []⟩, ⟨3, js "b.log", 2, none, [], []⟩] := by
    have hsorted : Sorted (compareEntries compareStrings) (sampleFiles.flatMap Prod.snd) := by
      unfold Sorted
      decide +kernel
    rw [mergeEntries, sortBy_of_sorted hsorted]
    rfl
  have hexact := (@findCorrelatedEntries_exact compareStrings _ sampleFiles).2.2.2
    ⟨2, js "b.log", 1, some 9, [], []⟩ (by rw [hmerged]; decide +kernel) 9 rfl 4 (by decide)
    (fun _ => none) _ rfl
  refine hexact.1.trans ?_
  rw [hmerged]
  exact List.Perm.of_eq (by decide +kernel)

end Merged
end CmTrace
