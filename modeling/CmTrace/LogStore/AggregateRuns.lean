import CmTrace.LogStore.Aggregate

/-!
# Runs of the merged view

Ids stay distinct, each file has the entries appended since its last reset, with
its amendments, and an operation on a file leaves the entries of the others.  What
becomes of the order and of the selection depends on the operation.
-/

namespace CmTrace
namespace LogStore

open Std Collections Js

/-! ## Ids -/

theorem le_foldl_max (entries : List LogEntry) (start : Int) :
    start ≤ entries.foldl (fun maxId entry => max maxId entry.id) start ∧
      ∀ e ∈ entries, e.id ≤ entries.foldl (fun maxId entry => max maxId entry.id) start := by
  induction entries generalizing start with
  | nil => exact ⟨Int.le_refl _, fun e he => (by cases he)⟩
  | cons first entries ih =>
    obtain ⟨hstart, hall⟩ := ih (max start first.id)
    rw [List.foldl_cons, List.forall_mem_cons]
    exact ⟨(Int.le_max_left _ _).trans hstart, (Int.le_max_right _ _).trans hstart, hall⟩

theorem lt_nextId {entries : List LogEntry} {e : LogEntry} (he : e ∈ entries) : e.id < nextId entries :=
  Int.lt_add_one_of_le ((le_foldl_max entries (-1)).2 e he)

theorem map_id_withIds (filePath : JsString) (first : Int) (entries : List LogEntry) :
    (withIds filePath first entries).map (·.id) =
      (List.range entries.length).map fun (i : Nat) => first + (i : Int) := by
  refine List.ext_getElem (by simp [withIds]) fun i h h' => ?_
  simp [withIds]

theorem mem_withIds {filePath : JsString} {first : Int} {entries : List LogEntry} {e : LogEntry}
    (he : e ∈ withIds filePath first entries) : e.filePath = filePath ∧ first ≤ e.id := by
  obtain ⟨i, hi, rfl⟩ := List.mem_iff_getElem.mp he
  simp [withIds]

theorem nodup_append_withIds {entries : List LogEntry} (h : (entries.map (·.id)).Nodup)
    (filePath : JsString) (newEntries : List LogEntry) :
    ((entries ++ withIds filePath (nextId entries) newEntries).map (·.id)).Nodup := by
  rw [List.map_append]
  refine List.nodup_append.mpr ⟨h, ?_, ?_⟩
  · rw [map_id_withIds]
    exact List.nodup_range.map fun i j hij => by
      have hij : nextId entries + (i : Int) = nextId entries + (j : Int) := hij
      omega
  · rintro id hid id' hid' rfl
    obtain ⟨e, he, rfl⟩ := List.mem_map.mp hid
    obtain ⟨e', he', hsame⟩ := List.mem_map.mp hid'
    have hlt := lt_nextId he
    have hge := (mem_withIds he').2
    omega

/-! ## Amendments in place -/

def amendById (id : Int) (amendment : TailEntryAmendment) (entry : LogEntry) : LogEntry :=
  if entry.id = id then applyTailAmendment entry amendment else entry

theorem amendById_id (id : Int) (amendment : TailEntryAmendment) (entry : LogEntry) :
    (amendById id amendment entry).id = entry.id := by
  rw [amendById]
  split <;> rfl

theorem amendById_filePath (id : Int) (amendment : TailEntryAmendment) (entry : LogEntry) :
    (amendById id amendment entry).filePath = entry.filePath := by
  rw [amendById]
  split <;> rfl

theorem amendFirst_eq {takes : LogEntry → Bool} {entries : List LogEntry} {taken : LogEntry}
    (h : (entries.map (·.id)).Nodup) (htaken : entries.find? takes = some taken)
    (amendment : TailEntryAmendment) :
    amendFirst takes amendment entries = entries.map (amendById taken.id amendment) := by
  induction entries with
  | nil => cases htaken
  | cons entry entries ih =>
    rw [List.map_cons, List.nodup_cons] at h
    rw [amendFirst, List.map_cons]
    cases htakes : takes entry with
    | true =>
      rw [List.find?_cons_of_pos htakes, Option.some_inj] at htaken
      subst htaken
      have hrest : entries.map (amendById entry.id amendment) = entries :=
        (List.map_congr_left fun e he => if_neg fun hid =>
          h.1 (List.mem_map.mpr ⟨e, he, hid⟩)).trans (List.map_id _)
      rw [if_pos rfl, hrest, amendById, if_pos rfl]
    | false =>
      rw [List.find?_cons_of_neg (by rw [htakes]; exact Bool.false_ne_true)] at htaken
      have hne : entry.id ≠ taken.id := fun hid =>
        h.1 (List.mem_map.mpr ⟨taken, List.mem_of_find?_eq_some htaken, hid.symm⟩)
      rw [if_neg Bool.false_ne_true, ih h.2 htaken, amendById, if_neg hne]

/-! ## The entries of a file -/

def ofFile (filePath : JsString) (entries : List LogEntry) : List LogEntry :=
  entries.filter fun entry => entry.filePath = filePath

theorem ofFile_append (filePath : JsString) (xs ys : List LogEntry) :
    ofFile filePath (xs ++ ys) = ofFile filePath xs ++ ofFile filePath ys := List.filter_append ..

theorem ofFile_perm (filePath : JsString) {xs ys : List LogEntry} (h : xs.Perm ys) :
    (ofFile filePath xs).Perm (ofFile filePath ys) := h.filter _

theorem ofFile_withIds_self (filePath : JsString) (first : Int) (entries : List LogEntry) :
    ofFile filePath (withIds filePath first entries) = withIds filePath first entries :=
  List.filter_eq_self.mpr fun _ he => decide_eq_true (mem_withIds he).1

theorem ofFile_withIds_ne {filePath other : JsString} (h : filePath ≠ other) (first : Int)
    (entries : List LogEntry) : ofFile other (withIds filePath first entries) = [] :=
  List.filter_eq_nil_iff.mpr fun _ he => by
    rw [(mem_withIds he).1, decide_eq_true_eq]
    exact h

theorem ofFile_remaining_self (filePath : JsString) (entries : List LogEntry) :
    ofFile filePath (entries.filter fun entry => entry.filePath ≠ filePath) = [] :=
  List.filter_eq_nil_iff.mpr fun e he => by
    have hne := of_decide_eq_true (List.mem_filter.mp he).2
    rwa [decide_eq_true_eq]

theorem ofFile_remaining_ne {filePath other : JsString} (h : filePath ≠ other)
    (entries : List LogEntry) :
    ofFile other (entries.filter fun entry => entry.filePath ≠ filePath) = ofFile other entries := by
  rw [ofFile, ofFile, List.filter_filter]
  refine List.filter_congr fun e _ => ?_
  by_cases he : e.filePath = other
  · simp [he, Ne.symm h]
  · simp [he]

theorem ofFile_map_amendById (filePath : JsString) (id : Int) (amendment : TailEntryAmendment)
    (entries : List LogEntry) :
    ofFile filePath (entries.map (amendById id amendment)) =
      (ofFile filePath entries).map (amendById id amendment) := by
  rw [ofFile, ofFile, List.filter_map]
  refine congrArg (List.map _) (List.filter_congr fun e _ => ?_)
  rw [Function.comp_apply, amendById_filePath]

theorem ofFile_map_amendById_ne {filePath : JsString} {entries : List LogEntry} {taken : LogEntry}
    (h : (entries.map (·.id)).Nodup) (htaken : taken ∈ entries) (hne : taken.filePath ≠ filePath)
    (amendment : TailEntryAmendment) :
    ofFile filePath (entries.map (amendById taken.id amendment)) = ofFile filePath entries := by
  rw [ofFile_map_amendById]
  refine (List.map_congr_left fun e he => if_neg fun hid => ?_).trans (List.map_id _)
  obtain ⟨he, hfile⟩ := List.mem_filter.mp he
  rw [List.inj_on_of_nodup_map h he htaken hid, decide_eq_true_eq] at hfile
  exact hne hfile

/-- What becomes of the entries of a file. -/
inductive FileEvent where
  | appended (entries : List LogEntry)
  | amended (id : Int) (amendment : TailEntryAmendment)
  | reset (entries : List LogEntry)

def FileEvent.apply (entries : List LogEntry) : FileEvent → List LogEntry
  | appended newEntries => entries ++ newEntries
  | amended id amendment => entries.map (amendById id amendment)
  | reset newEntries => newEntries

theorem FileEvent.apply_perm (event : FileEvent) {xs ys : List LogEntry} (h : xs.Perm ys) :
    (event.apply xs).Perm (event.apply ys) := by
  cases event with
  | appended newEntries => exact h.append_right newEntries
  | amended id amendment => exact h.map _
  | reset newEntries => exact .refl _

/-- What an operation does to its file: a batch of a file that is not listed is
refused, and so is an amendment that no entry of the file takes. -/
def fileEvents (state : LogState) : AggregateOp → List FileEvent
  | .append filePath newEntries =>
    if isListed state filePath then
      [.appended (withIds filePath (nextId state.entries) newEntries)]
    else []
  | .amend filePath amendment =>
    ((state.entries.find? (takesAmendment filePath amendment)).map fun taken =>
      FileEvent.amended taken.id amendment).toList
  | .reset filePath newEntries =>
    [.reset (withIds filePath
      (nextId (state.entries.filter fun entry => entry.filePath ≠ filePath)) newEntries)]

section Steps

variable (localeCompare : JsString → JsString → Ordering) (find : Option (LogEntry → Bool))

@[simp] theorem recompute_entries (state : LogState) :
    (recomputeAndSetMatches find state).entries = state.entries := by
  rw [recomputeAndSetMatches.eq_def]
  cases find <;> rfl

@[simp] theorem recompute_aggregateFiles (state : LogState) :
    (recomputeAndSetMatches find state).aggregateFiles = state.aggregateFiles := by
  rw [recomputeAndSetMatches.eq_def]
  cases find <;> rfl

theorem append_entries (filePath : JsString) (newEntries : List LogEntry) (state : LogState) :
    (appendAggregateEntries localeCompare find filePath newEntries state).entries =
      if isListed state filePath then mergeEntries localeCompare state
        (state.entries ++ withIds filePath (nextId state.entries) newEntries)
      else state.entries := by
  rw [appendAggregateEntries, recompute_entries]
  cases isListed state filePath <;> rfl

theorem reset_entries (filePath : JsString) (newEntries : List LogEntry) (state : LogState) :
    (resetAggregateEntries localeCompare find filePath newEntries state).entries =
      let remaining := state.entries.filter fun entry => entry.filePath ≠ filePath
      mergeEntries localeCompare state
        (remaining ++ withIds filePath (nextId remaining) newEntries) := by
  rw [resetAggregateEntries, recompute_entries]

theorem amend_entries (filePath : JsString) (amendment : TailEntryAmendment) {state : LogState}
    (h : (state.entries.map (·.id)).Nodup) :
    (amendAggregateEntry find filePath amendment state).entries =
      match state.entries.find? (takesAmendment filePath amendment) with
      | none => state.entries
      | some taken => state.entries.map (amendById taken.id amendment) := by
  rw [amendAggregateEntry]
  cases htaken : state.entries.find? (takesAmendment filePath amendment) with
  | none =>
    have hnone : state.entries.any (takesAmendment filePath amendment) = false := by
      rw [← List.isSome_find?, htaken]
      rfl
    rw [hnone]
    rfl
  | some taken =>
    have hsome : state.entries.any (takesAmendment filePath amendment) = true := by
      rw [← List.isSome_find?, htaken]
      rfl
    rw [hsome]
    exact (recompute_entries find _).trans (amendFirst_eq h htaken amendment)

theorem mergeEntries_perm (state : LogState) (entries : List LogEntry) :
    (mergeEntries localeCompare state entries).Perm entries :=
  sortBy_perm _ _

theorem step_nodup {state : LogState} (h : (state.entries.map (·.id)).Nodup) (op : AggregateOp) :
    ((state.step localeCompare find op).entries.map (·.id)).Nodup := by
  cases op with
  | append filePath newEntries =>
    rw [LogState.step, append_entries]
    split
    · rw [((mergeEntries_perm localeCompare state _).map (·.id)).nodup_iff]
      exact nodup_append_withIds h filePath newEntries
    · exact h
  | amend filePath amendment =>
    rw [LogState.step, amend_entries find filePath amendment h]
    split
    · exact h
    · rename_i taken _
      have hids : state.entries.map ((·.id) ∘ amendById taken.id amendment) =
          state.entries.map (·.id) :=
        List.map_congr_left fun e _ => amendById_id taken.id amendment e
      rw [List.map_map, hids]
      exact h
  | reset filePath newEntries =>
    rw [LogState.step, reset_entries]
    rw [((mergeEntries_perm localeCompare state _).map (·.id)).nodup_iff]
    exact nodup_append_withIds (h.sublist (List.filter_sublist.map _)) filePath newEntries

theorem step_ofFile {state : LogState} (h : (state.entries.map (·.id)).Nodup) (op : AggregateOp)
    (filePath : JsString) :
    (ofFile filePath (state.step localeCompare find op).entries).Perm
      ((if op.filePath = filePath then fileEvents state op else []).foldl FileEvent.apply
        (ofFile filePath state.entries)) := by
  cases op with
  | append file newEntries =>
    rw [LogState.step, append_entries, fileEvents, AggregateOp.filePath]
    cases hlisted : isListed state file with
    | false =>
      have hnone : (if file = filePath then ([] : List FileEvent) else []) = [] := ite_self _
      simp only [Bool.false_eq_true, if_false, hnone]
      exact .refl _
    | true =>
      have hmerged := ofFile_perm filePath (mergeEntries_perm localeCompare state
        (state.entries ++ withIds file (nextId state.entries) newEntries))
      rw [ofFile_append] at hmerged
      rw [if_pos rfl, if_pos rfl]
      by_cases hfile : file = filePath
      · subst hfile
        rw [ofFile_withIds_self] at hmerged
        rwa [if_pos rfl]
      · rw [ofFile_withIds_ne hfile, List.append_nil] at hmerged
        rwa [if_neg hfile]
  | amend file amendment =>
    rw [LogState.step, amend_entries find file amendment h, fileEvents, AggregateOp.filePath]
    cases htaken : state.entries.find? (takesAmendment file amendment) with
    | none =>
      have hnone : (if file = filePath then ([] : List FileEvent) else []) = [] := ite_self _
      rw [Option.map_none, Option.toList_none, hnone]
      exact .refl _
    | some taken =>
      have hmem := List.mem_of_find?_eq_some htaken
      have htakes := List.find?_some htaken
      rw [takesAmendment, Bool.and_eq_true, decide_eq_true_eq] at htakes
      by_cases hfile : file = filePath
      · rw [if_pos hfile]
        exact .of_eq (ofFile_map_amendById filePath taken.id amendment state.entries)
      · rw [if_neg hfile]
        exact .of_eq (ofFile_map_amendById_ne h hmem (htakes.1.trans_ne hfile) amendment)
  | reset file newEntries =>
    rw [LogState.step, reset_entries, fileEvents, AggregateOp.filePath]
    have hmerged := ofFile_perm filePath (mergeEntries_perm localeCompare state
      (state.entries.filter (fun entry => entry.filePath ≠ file) ++ withIds file
        (nextId (state.entries.filter fun entry => entry.filePath ≠ file)) newEntries))
    rw [ofFile_append] at hmerged
    by_cases hfile : file = filePath
    · subst hfile
      rw [ofFile_remaining_self, ofFile_withIds_self, List.nil_append] at hmerged
      rwa [if_pos rfl]
    · rw [ofFile_remaining_ne hfile, ofFile_withIds_ne hfile, List.append_nil] at hmerged
      rwa [if_neg hfile]

/-! ## The order -/

theorem setFileLines_paths (filePath : JsString) (lines : Nat → Nat) (files : List AggregateSourceFile) :
    (setFileLines filePath lines files).map (·.filePath) = files.map (·.filePath) := by
  rw [setFileLines, List.map_map]
  refine List.map_congr_left fun file _ => ?_
  rw [Function.comp_apply]
  split <;> rfl

def LogState.fileOrder (state : LogState) : JsString → Nat :=
  buildAggregateFileOrder state.aggregateFiles

theorem fileOrder_congr {state state' : LogState}
    (h : state'.aggregateFiles.map (·.filePath) = state.aggregateFiles.map (·.filePath)) :
    state'.fileOrder = state.fileOrder := by
  funext filePath
  rw [LogState.fileOrder, LogState.fileOrder, buildAggregateFileOrder, buildAggregateFileOrder, h]

theorem step_fileOrder (state : LogState) (op : AggregateOp) :
    (state.step localeCompare find op).fileOrder = state.fileOrder := by
  refine fileOrder_congr ?_
  cases op with
  | append filePath newEntries =>
    rw [LogState.step, appendAggregateEntries, recompute_aggregateFiles]
    cases isListed state filePath with
    | false => rfl
    | true =>
      exact setFileLines_paths filePath (fun lines => max lines (highestLine newEntries))
        state.aggregateFiles
  | amend filePath amendment =>
    rw [LogState.step, amendAggregateEntry]
    split
    · rfl
    · rw [recompute_aggregateFiles]
      dsimp only
      split
      · exact setFileLines_paths filePath _ state.aggregateFiles
      · rfl
  | reset filePath newEntries =>
    rw [LogState.step, resetAggregateEntries, recompute_aggregateFiles]
    exact setFileLines_paths filePath (fun _ => highestLine newEntries) state.aggregateFiles

def placeOrder (fileOrder : JsString → Nat) : LogEntry → LogEntry → Ordering :=
  compareLex (orderOn (someFirst intOrder) (·.timestamp)) <|
  compareLex (orderOn natOrder fun entry => fileOrder entry.filePath) (orderOn natOrder (·.lineNumber))

theorem compareMerged_eq (fileOrder : JsString → Nat) (a b : LogEntry) :
    compareMergedLogEntries localeCompare fileOrder a b =
      (placeOrder fileOrder a b).then (localeCompare a.message b.message) := by
  simp only [compareMergedLogEntries, placeOrder, compareLex, orderOn, Ordering.then_assoc]

theorem compareMerged_of_place {fileOrder : JsString → Nat} {a b : LogEntry}
    (h : placeOrder fileOrder a b ≠ .eq) :
    compareMergedLogEntries localeCompare fileOrder a b = placeOrder fileOrder a b := by
  rw [compareMerged_eq]
  cases hplace : placeOrder fileOrder a b with
  | lt => rfl
  | eq => exact absurd hplace h
  | gt => rfl

theorem placeOrder_amendById (fileOrder : JsString → Nat) (id : Int) (amendment : TailEntryAmendment)
    (a b : LogEntry) :
    placeOrder fileOrder (amendById id amendment a) (amendById id amendment b) =
      placeOrder fileOrder a b := by
  rw [amendById, amendById]
  split <;> split <;> rfl

def LogState.Ordered (state : LogState) : Prop :=
  Sorted (compareMergedLogEntries localeCompare state.fileOrder) state.entries

/-- An entry that is amended ties with no other in time, file and line. -/
def Untied (state : LogState) : AggregateOp → Prop
  | .amend filePath amendment =>
    ∀ taken, state.entries.find? (takesAmendment filePath amendment) = some taken →
      ∀ e ∈ state.entries, e.id ≠ taken.id → placeOrder state.fileOrder e taken ≠ .eq ∧
        placeOrder state.fileOrder taken e ≠ .eq
  | _ => True

theorem sorted_amended {fileOrder : JsString → Nat} {entries : List LogEntry} {taken : LogEntry}
    (h : (entries.map (·.id)).Nodup) (htaken : taken ∈ entries)
    (hsorted : Sorted (compareMergedLogEntries localeCompare fileOrder) entries)
    (huntied : ∀ e ∈ entries, e.id ≠ taken.id →
      placeOrder fileOrder e taken ≠ .eq ∧ placeOrder fileOrder taken e ≠ .eq)
    (amendment : TailEntryAmendment) :
    Sorted (compareMergedLogEntries localeCompare fileOrder)
      (entries.map (amendById taken.id amendment)) := by
  rw [Sorted, List.pairwise_map]
  refine (hsorted.and (List.pairwise_map.mp h)).imp_of_mem fun {a b} ha hb ⟨hle, hne⟩ => ?_
  by_cases hplace : placeOrder fileOrder a b = .eq
  · -- neither of them is the one that is amended
    have hfree : ∀ {e e' : LogEntry}, e ∈ entries → e' ∈ entries → e.id ≠ e'.id → e.id = taken.id →
        placeOrder fileOrder e e' ≠ .eq ∧ placeOrder fileOrder e' e ≠ .eq := by
      intro e e' he he' hne hid
      obtain rfl := List.inj_on_of_nodup_map h he htaken hid
      exact (huntied e' he' hne.symm).symm
    have hna : a.id ≠ taken.id := fun hid => (hfree ha hb hne hid).1 hplace
    have hnb : b.id ≠ taken.id := fun hid => (hfree hb ha hne.symm hid).2 hplace
    rwa [amendById, amendById, if_neg hna, if_neg hnb]
  · have hplace' := (placeOrder_amendById fileOrder taken.id amendment a b).trans_ne hplace
    rw [compareMerged_of_place localeCompare hplace', placeOrder_amendById]
    rwa [compareMerged_of_place localeCompare hplace] at hle

section Lawful

variable [TransCmp localeCompare]

theorem mergeEntries_sorted (state : LogState) (entries : List LogEntry) :
    Sorted (compareMergedLogEntries localeCompare state.fileOrder)
      (mergeEntries localeCompare state entries) :=
  sortBy_sorted _ _

theorem step_ordered {state : LogState} (h : (state.entries.map (·.id)).Nodup)
    (hordered : state.Ordered localeCompare) (op : AggregateOp) (huntied : Untied state op) :
    (state.step localeCompare find op).Ordered localeCompare := by
  rw [LogState.Ordered, step_fileOrder]
  cases op with
  | append filePath newEntries =>
    rw [LogState.step, append_entries]
    split
    · exact mergeEntries_sorted localeCompare state _
    · exact hordered
  | amend filePath amendment =>
    rw [LogState.step, amend_entries find filePath amendment h]
    cases htaken : state.entries.find? (takesAmendment filePath amendment) with
    | none => exact hordered
    | some taken =>
      exact sorted_amended localeCompare h (List.mem_of_find?_eq_some htaken) hordered
        (huntied taken htaken) amendment
  | reset filePath newEntries =>
    rw [LogState.step, reset_entries]
    exact mergeEntries_sorted localeCompare state _

end Lawful

/-! ## The selection -/

/-- An entry and what it has become. -/
structure SameEntry (e e' : LogEntry) : Prop where
  id : e'.id = e.id
  filePath : e'.filePath = e.filePath
  lineNumber : e'.lineNumber = e.lineNumber
  timestamp : e'.timestamp = e.timestamp
  message : e.message <+: e'.message

theorem SameEntry.refl (e : LogEntry) : SameEntry e e := ⟨rfl, rfl, rfl, rfl, List.prefix_rfl⟩

theorem sameEntry_amendById (id : Int) (amendment : TailEntryAmendment) (e : LogEntry) :
    SameEntry e (amendById id amendment e) := by
  rw [amendById]
  split
  · exact ⟨rfl, rfl, rfl, rfl, List.prefix_append _ _⟩
  · exact .refl e

def AggregateOp.Drops (op : AggregateOp) (e : LogEntry) : Prop :=
  ∃ filePath newEntries, op = .reset filePath newEntries ∧ e.filePath = filePath

theorem step_sameEntry {state : LogState} (h : (state.entries.map (·.id)).Nodup) (op : AggregateOp)
    {e : LogEntry} (he : e ∈ state.entries) (hkept : ¬ op.Drops e) :
    ∃ e' ∈ (state.step localeCompare find op).entries, SameEntry e e' := by
  cases op with
  | append filePath newEntries =>
    rw [LogState.step, append_entries]
    split
    · exact ⟨e, (mergeEntries_perm localeCompare state _).mem_iff.mpr (List.mem_append_left _ he),
        .refl e⟩
    · exact ⟨e, he, .refl e⟩
  | amend filePath amendment =>
    rw [LogState.step, amend_entries find filePath amendment h]
    split
    · exact ⟨e, he, .refl e⟩
    · exact ⟨_, List.mem_map_of_mem he, sameEntry_amendById _ amendment e⟩
  | reset filePath newEntries =>
    rw [LogState.step, reset_entries]
    have hne : e.filePath ≠ filePath := fun hfile => hkept ⟨filePath, newEntries, rfl, hfile⟩
    exact ⟨e, (mergeEntries_perm localeCompare state _).mem_iff.mpr (List.mem_append_left _
      (List.mem_filter.mpr ⟨he, decide_eq_true hne⟩)), .refl e⟩

theorem step_selectedId (state : LogState) (op : AggregateOp) :
    (state.step localeCompare none op).selectedId = match op with
      | .reset _ _ => state.selectedId.filter fun id =>
          (state.step localeCompare none op).entries.any fun entry => entry.id = id
      | _ => state.selectedId := by
  cases op with
  | append filePath newEntries =>
    rw [LogState.step, appendAggregateEntries]
    cases isListed state filePath <;> rfl
  | amend filePath amendment =>
    rw [LogState.step, amendAggregateEntry]
    split <;> rfl
  | reset filePath newEntries => rfl

theorem recompute_selectedId (matcher : LogEntry → Bool) (state : LogState) :
    (recomputeAndSetMatches (some matcher) state).selectedId = state.selectedId ∨
      ∃ e ∈ state.entries, matcher e = true ∧
        (recomputeAndSetMatches (some matcher) state).selectedId = some e.id := by
  rw [recomputeAndSetMatches.eq_def]
  dsimp only
  cases hindex : (findIndex state.entries ((state.entries.filter matcher).map (·.id))
      state.selectedId).bind (((state.entries.filter matcher).map (·.id))[·]?) with
  | none => exact .inl rfl
  | some id =>
    obtain ⟨index, -, hid⟩ := Option.bind_eq_some_iff.mp hindex
    obtain ⟨e, he, rfl⟩ := List.mem_map.mp (List.mem_of_getElem? hid)
    obtain ⟨hmem, hmatch⟩ := List.mem_filter.mp he
    exact .inr ⟨e, hmem, hmatch, rfl⟩

theorem step_find_selectedId (matcher : LogEntry → Bool) (state : LogState) (op : AggregateOp) :
    (state.step localeCompare (some matcher) op).selectedId =
        (state.step localeCompare none op).selectedId ∨
      ∃ e ∈ (state.step localeCompare (some matcher) op).entries, matcher e = true ∧
        (state.step localeCompare (some matcher) op).selectedId = some e.id := by
  cases op with
  | append filePath newEntries =>
    rw [LogState.step, LogState.step, appendAggregateEntries, recompute_entries]
    exact recompute_selectedId matcher _
  | amend filePath amendment =>
    rw [LogState.step, LogState.step, amendAggregateEntry, amendAggregateEntry]
    split
    · exact .inl rfl
    · rw [recompute_entries]
      exact recompute_selectedId matcher _
  | reset filePath newEntries =>
    rw [LogState.step, LogState.step, resetAggregateEntries, recompute_entries]
    exact recompute_selectedId matcher _

/-- What an operation makes of the selection: without a find it is cleared or stays
and designates the entry it designated, if that was not dropped; a find may take it
to a match. -/
structure SelectionKept (state : LogState) (op : AggregateOp) : Prop where
  stays : (state.step localeCompare none op).selectedId = none ∨
    (state.step localeCompare none op).selectedId = state.selectedId
  designates : ∀ e ∈ state.entries, state.selectedId = some e.id → ¬ op.Drops e →
    (state.step localeCompare none op).selectedId = some e.id ∧
      ∃ e' ∈ (state.step localeCompare none op).entries, SameEntry e e'
  found : ∀ matcher, (state.step localeCompare (some matcher) op).selectedId =
        (state.step localeCompare none op).selectedId ∨
      ∃ e ∈ (state.step localeCompare (some matcher) op).entries, matcher e = true ∧
        (state.step localeCompare (some matcher) op).selectedId = some e.id

theorem step_selection {state : LogState} (h : (state.entries.map (·.id)).Nodup) (op : AggregateOp) :
    SelectionKept localeCompare state op where
  stays := by
    rw [step_selectedId]
    cases op with
    | append _ _ => exact .inr rfl
    | amend _ _ => exact .inr rfl
    | reset _ _ =>
      dsimp only
      cases state.selectedId with
      | none => exact .inl rfl
      | some id =>
        rw [Option.filter_some]
        split
        · exact .inr rfl
        · exact .inl rfl
  designates := by
    intro e he hselected hkept
    obtain ⟨e', he', hsame⟩ := step_sameEntry localeCompare none h op he hkept
    refine ⟨?_, e', he', hsame⟩
    rw [step_selectedId]
    cases op with
    | append _ _ => exact hselected
    | amend _ _ => exact hselected
    | reset filePath newEntries =>
      have hany : ((state.step localeCompare none (.reset filePath newEntries)).entries.any
          fun entry => decide (entry.id = e.id)) = true :=
        List.any_eq_true.mpr ⟨e', he', decide_eq_true hsame.id⟩
      dsimp only
      rw [hselected, Option.filter_some, hany, if_pos rfl]
  found matcher := step_find_selectedId localeCompare matcher state op

end Steps

/-! ## Runs -/

section Runs

variable (localeCompare : JsString → JsString → Ordering) (find : Option (LogEntry → Bool))

def runEvents (filePath : JsString) : LogState → List AggregateOp → List FileEvent
  | _, [] => []
  | state, op :: ops =>
    (if op.filePath = filePath then fileEvents state op else []) ++
      runEvents filePath (state.step localeCompare find op) ops

def UntiedRun : LogState → List AggregateOp → Prop
  | _, [] => True
  | state, op :: ops => Untied state op ∧ UntiedRun (state.step localeCompare find op) ops

theorem run_nodup (ops : List AggregateOp) {state : LogState} (h : (state.entries.map (·.id)).Nodup) :
    ((state.run localeCompare find ops).entries.map (·.id)).Nodup := by
  induction ops generalizing state with
  | nil => exact h
  | cons op ops ih => exact ih (step_nodup localeCompare find h op)

theorem foldl_apply_perm (events : List FileEvent) {xs ys : List LogEntry} (h : xs.Perm ys) :
    (events.foldl FileEvent.apply xs).Perm (events.foldl FileEvent.apply ys) := by
  induction events generalizing xs ys with
  | nil => exact h
  | cons event events ih => exact ih (event.apply_perm h)

theorem run_ofFile (filePath : JsString) (ops : List AggregateOp) {state : LogState}
    (h : (state.entries.map (·.id)).Nodup) :
    (ofFile filePath (state.run localeCompare find ops).entries).Perm
      ((runEvents localeCompare find filePath state ops).foldl FileEvent.apply
        (ofFile filePath state.entries)) := by
  induction ops generalizing state with
  | nil => exact .refl _
  | cons op ops ih =>
    rw [runEvents, List.foldl_append]
    exact (ih (step_nodup localeCompare find h op)).trans
      (foldl_apply_perm _ (step_ofFile localeCompare find h op filePath))

theorem run_ordered [TransCmp localeCompare] (ops : List AggregateOp) {state : LogState}
    (h : (state.entries.map (·.id)).Nodup) (hordered : state.Ordered localeCompare)
    (huntied : UntiedRun localeCompare find state ops) :
    (state.run localeCompare find ops).Ordered localeCompare := by
  induction ops generalizing state with
  | nil => exact hordered
  | cons op ops ih =>
    exact ih (step_nodup localeCompare find h op)
      (step_ordered localeCompare find h hordered op huntied.1) huntied.2

/-- The state after a run, and what the next operation makes of it. -/
structure ViewKept (start : LogState) (ops : List AggregateOp) : Prop where
  ids : ((start.run localeCompare find ops).entries.map (·.id)).Nodup
  contents : ∀ filePath, (ofFile filePath (start.run localeCompare find ops).entries).Perm
    ((runEvents localeCompare find filePath start ops).foldl FileEvent.apply
      (ofFile filePath start.entries))
  ordered : start.Ordered localeCompare → UntiedRun localeCompare find start ops →
    (start.run localeCompare find ops).Ordered localeCompare
  others : ∀ op filePath, op.filePath ≠ filePath →
    (ofFile filePath ((start.run localeCompare find ops).step localeCompare find op).entries).Perm
      (ofFile filePath (start.run localeCompare find ops).entries)
  selection : ∀ op, SelectionKept localeCompare (start.run localeCompare find ops) op

/-- The merged view keeps its invariant over every run. -/
theorem aggregate_view_kept [TransCmp localeCompare] (start : LogState)
    (h : (start.entries.map (·.id)).Nodup) (ops : List AggregateOp) :
    ViewKept localeCompare find start ops where
  ids := run_nodup localeCompare find ops h
  contents filePath := run_ofFile localeCompare find filePath ops h
  ordered := run_ordered localeCompare find ops h
  others op filePath hne := by
    have hstep := step_ofFile localeCompare find (run_nodup localeCompare find ops h) op filePath
    rwa [if_neg hne] at hstep
  selection := step_selection localeCompare (run_nodup localeCompare find ops h)

end Runs

/-! ## Where a selection or the order is lost -/

def plainEntry (id : Int) (filePath message : String) : LogEntry :=
  { id             := id
    filePath       := js filePath
    lineNumber     := 1
    timestamp      := none
    message        := js message
    errorCodeSpans := [] }

def selectedEntry : LogState := { entries := [plainEntry 0 "a" "up"], selectedId := some 0 }

def isDown (entry : LogEntry) : Bool := entry.message = js "went down"

/-- Two entries of one line, with the suffix of a line for the first. -/
def tiedEntries : LogState := { entries := [plainEntry 0 "a" "x", plainEntry 1 "a" "x\ty"] }

def nextLine : TailEntryAmendment :=
  { entryId               := 0
    entryLineNumber       := 1
    continuationStartLine := 2
    continuationEndLine   := 2
    messageUtf16Start     := 1
    messageSuffix         := js "\nz"
    errorCodeSpans        := [] }

theorem aggregate_view_kept_append :
    ViewKept compareStrings none selectedEntry [.append (js "b") [plainEntry 5 "b" "went down"]] :=
  aggregate_view_kept compareStrings none selectedEntry (List.nodup_singleton 0) _

/-- A find takes the selection from an entry that is still there, a fresh entry takes
the id of the one that was selected, and an amendment leaves its entry where it was. -/
theorem selection_and_order_lost :
    (selectedEntry.step compareStrings (some isDown)
        (.append (js "a") [plainEntry 5 "a" "went down"])).selectedId = some 1 ∧
      selectedEntry.step compareStrings none (.reset (js "a") [plainEntry 5 "a" "went down"]) =
        { entries := [plainEntry 0 "a" "went down"], selectedId := some 0, totalLines := 1 } ∧
      tiedEntries.Ordered compareStrings ∧
      ¬ (tiedEntries.step compareStrings none (.amend (js "a") nextLine)).Ordered compareStrings := by
  refine ⟨?_, by decide +kernel, ?_, ?_⟩
  · have hsorted : Sorted (compareMergedLogEntries compareStrings selectedEntry.fileOrder)
        (selectedEntry.entries ++
          withIds (js "a") (nextId selectedEntry.entries) [plainEntry 5 "a" "went down"]) := by
      show List.Pairwise _ _
      decide +kernel
    change (recomputeAndSetMatches (some isDown)
      { entries    := sortBy (compareMergedLogEntries compareStrings selectedEntry.fileOrder) _
        selectedId := some 0
        totalLines := 1 }).selectedId = some 1
    rw [sortBy_of_sorted hsorted]
    decide +kernel
  · show List.Pairwise _ _
    decide +kernel
  · show ¬ List.Pairwise _ _
    decide +kernel

end LogStore
end CmTrace
