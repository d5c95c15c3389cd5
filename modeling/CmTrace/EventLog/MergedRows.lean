import CmTrace.EventLog.Selection

/-!
# What a merge keeps

A merge keeps the order, every record and every key once.  It keeps the selected
row, when that has a number; a row without one keeps its place among its doubles
when as many of them are before it as were counted.
-/

namespace CmTrace
namespace EventLog

open Std Collections Js

section

variable {R : Type} [DecidableEq R] (read : R → StoredRecord)
variable (localeCompare : JsString → JsString → Ordering)
variable (selectedKey : Option JsString) (ids : R → Nat) (existing : List R)
variable (selectedRecordId : Option Nat) (incoming : List R)

def SameRow (s r : R) : Prop :=
  r = s ∨ ∃ key, recordKey (read s) = some key ∧ recordKey (read r) = some key

/-- What is expected of a merge. -/
structure MergedFaithfully (m : Merged R) : Prop where
  sorted : Sorted (storedOrder read localeCompare) m.records
  positions : ∀ (i : Nat) (h : i < m.records.length), m.ids m.records[i] = i
  existing_held : ∀ r ∈ existing, r ∈ m.records
  incoming_held : ∀ r ∈ incoming, r ∈ m.records ∨ ∃ there ∈ m.records, ∃ key,
    recordKey (read r) = some key ∧ recordKey (read there) = some key
  nothing_else : ∀ r ∈ m.records, r ∈ existing ∨ r ∈ incoming
  keys_once : (keysOf read m.records).Nodup
  selection : ∀ s, selectedRow read selectedKey ids existing selectedRecordId = some s →
    ∃ id row, m.selectedRecordId = some id ∧ m.records[id]? = some row ∧ SameRow read s row

/-- How many doubles of the selected row were counted before it: with the rows that
have a number, unless its address was kept from before. -/
def capturedCount (pre : List R) (s : R) : Nat :=
  match selectedKey with
  | none => pre.countP fun r => fingerprint read r = fingerprint read s
  | some _ => pre.countP (isDouble read (fingerprint read s))

/-- As many doubles are before a selected row without a number as were counted: those
that were before it and do not sort behind it, and those that were behind it or come in
and sort before it. -/
def SelectionSteady : Prop :=
  ∀ pre s post, existing = pre ++ s :: post →
    selectedRow read selectedKey ids existing selectedRecordId = some s →
    recordKey (read s) = none →
    capturedCount read selectedKey pre s =
      (pre.countP fun r => isDouble read (fingerprint read s) r &&
        (storedOrder read localeCompare r s).isLE) +
      ((post ++ incoming.dedup.filter fun r => r ∉ existing).countP fun r =>
        isDouble read (fingerprint read s) r && (storedOrder read localeCompare r s == .lt))

instance [TransCmp localeCompare] : TransCmp (storedOrder read localeCompare) :=
  inferInstanceAs (TransCmp (orderOn (compareStoredRecords localeCompare) read))

/-! ## Ids -/

theorem assignIds_append (records : List R) (r : R) :
    assignIds ids (records ++ [r]) = Function.update (assignIds ids records) r records.length := by
  simp [assignIds, List.zipIdx_append]

theorem assignIds_positions_iff (records : List R) :
    (∀ (i : Nat) (h : i < records.length), assignIds ids records records[i] = i) ↔
      records.Nodup := by
  constructor
  · intro h
    rw [List.nodup_iff_injective_getElem]
    intro i j hij
    have hij : records[i.val] = records[j.val] := hij
    have hi := h i i.isLt
    rw [hij, h j j.isLt] at hi
    exact Fin.ext hi.symm
  · intro hnodup
    induction records using List.reverseRecOn with
    | nil => exact fun i h => absurd h (Nat.not_lt_zero i)
    | append_singleton records r ih =>
      obtain ⟨hrecords, -, hnew⟩ := List.nodup_append.mp hnodup
      intro i h
      rw [assignIds_append]
      by_cases hlast : i < records.length
      · rw [List.getElem_append_left hlast,
          Function.update_of_ne (hnew _ (List.getElem_mem hlast) r (List.mem_singleton_self r))]
        exact ih hrecords i hlast
      · rw [List.length_append, List.length_singleton] at h
        have hi : i = records.length := by omega
        subst hi
        simp

/-! ## The selected row -/

variable {read selectedKey ids existing selectedRecordId}

def selectionIdentity (read : R → StoredRecord) (selectedKey : Option JsString)
    (existing : List R) (s : R) : JsString :=
  match selectedKey with
  | some key => key
  | none => (selectionKeyForIndex read existing (existing.idxOf s)).getD []

omit [DecidableEq R] in
theorem selectedRow_mem {s : R}
    (h : selectedRow read selectedKey ids existing selectedRecordId = some s) : s ∈ existing := by
  cases selectedKey with
  | none =>
    obtain ⟨id, -, hfind⟩ := Option.bind_eq_some_iff.mp h
    exact List.mem_of_find?_eq_some hfind
  | some key =>
    obtain ⟨index, -, hindex⟩ := Option.bind_eq_some_iff.mp h
    exact List.mem_of_getElem? hindex

omit [DecidableEq R] in
theorem selectionKeyForIndex_append (pre post : List R) (s : R) :
    selectionKeyForIndex read (pre ++ s :: post) pre.length = some (
      match recordKey (read s) with
      | some key => stableAddress key
      | none => transientAddress (fingerprint read s)
          (pre.countP fun r => fingerprint read r = fingerprint read s)) := by
  rw [selectionKeyForIndex, List.getElem?_append_right le_rfl, Nat.sub_self, List.take_left' rfl]
  rfl

theorem idxOf_append_self {pre post : List R} {s : R} (h : s ∉ pre) :
    (pre ++ s :: post).idxOf s = pre.length := by
  rw [List.idxOf_append_of_notMem h, List.idxOf_cons_self, Nat.add_zero]

/-- A selected row is looked for by the number it has, or by what it shows and the
count of doubles before it. -/
theorem selectionIdentity_eq {pre post : List R} {s : R} (hexisting : existing = pre ++ s :: post)
    (hnodup : existing.Nodup)
    (h : selectedRow read selectedKey ids existing selectedRecordId = some s) :
    selectionIdentity read selectedKey existing s =
      match recordKey (read s) with
      | some key => stableAddress key
      | none => transientAddress (fingerprint read s) (capturedCount read selectedKey pre s) := by
  subst hexisting
  have hs : s ∉ pre := fun hs =>
    (List.nodup_append.mp hnodup).2.2 s hs s (List.mem_cons_self ..) rfl
  cases selectedKey with
  | none =>
    rw [selectionIdentity, idxOf_append_self hs, selectionKeyForIndex_append, Option.getD_some]
    rfl
  | some key =>
    obtain ⟨index, hfound, hindex⟩ := Option.bind_eq_some_iff.mp h
    obtain ⟨A, r, B, hrecords, rfl, haddress⟩ := findSelectionIndex_some hfound
    have hr : r = s := by
      rw [hrecords, List.getElem?_append_right le_rfl, Nat.sub_self] at hindex
      exact Option.some.inj hindex
    subst hr
    have hr' : r ∉ A := fun hr' =>
      (List.nodup_append.mp (hrecords ▸ hnodup)).2.2 r hr' r (List.mem_cons_self ..) rfl
    have hA : A = pre := by
      have hlength := congrArg (List.idxOf r) hrecords
      rw [idxOf_append_self hs, idxOf_append_self hr'] at hlength
      exact (List.append_inj hrecords hlength).1.symm
    subst hA
    rw [selectionIdentity, ← haddress, addressAfter]
    rfl

omit [DecidableEq R] in
theorem find_stable {records : List R} {s : R} {key : JsString} (hs : s ∈ records)
    (hkey : recordKey (read s) = some key) :
    ∃ id row, findSelectionIndex read records (stableAddress key) = some id ∧
      records[id]? = some row ∧ SameRow read s row := by
  obtain ⟨A, B, rfl⟩ := List.append_of_mem hs
  have haddress : addressAfter read A s = stableAddress key := by
    rw [addressAfter, hkey]
  obtain ⟨id, hid⟩ := @findSelectionIndex_isSome _ read A B s
  rw [haddress] at hid
  obtain ⟨A', row, B', hrecords, rfl, hrow⟩ := findSelectionIndex_some hid
  refine ⟨A'.length, row, hid, ?_, .inr ⟨key, hkey, ?_⟩⟩
  · rw [hrecords, List.getElem?_append_right le_rfl, Nat.sub_self]
    rfl
  · cases hkey' : recordKey (read row) with
    | none =>
      rw [addressAfter, hkey'] at hrow
      exact absurd hrow.symm (stableAddress_ne_transientAddress _ _ _)
    | some key' =>
      rw [addressAfter, hkey'] at hrow
      rw [stableAddress_injective hrow]

/-- A row without a number is found exactly when its doubles before it are as many as
the address counts. -/
theorem find_transient_iff {A B : List R} {s : R} {n : Nat} (hnodup : (A ++ s :: B).Nodup)
    (hkey : recordKey (read s) = none) :
    (∃ id row, findSelectionIndex read (A ++ s :: B)
        (transientAddress (fingerprint read s) n) = some id ∧
      (A ++ s :: B)[id]? = some row ∧ SameRow read s row) ↔
    n = A.countP (isDouble read (fingerprint read s)) := by
  have haddress : addressAfter read A s = transientAddress (fingerprint read s)
      (A.countP (isDouble read (fingerprint read s))) := by
    rw [addressAfter, hkey]
  constructor
  · rintro ⟨id, row, hid, hrow, hsame⟩
    obtain rfl : row = s := by
      rcases hsame with h | ⟨key, h, -⟩
      · exact h
      · rw [hkey] at h
        cases h
    obtain ⟨A', r, B', hrecords, rfl, hr⟩ := findSelectionIndex_some hid
    obtain rfl : r = row := by
      rw [hrecords, List.getElem?_append_right le_rfl, Nat.sub_self] at hrow
      exact Option.some.inj hrow
    have hs : r ∉ A := fun h =>
      (List.nodup_append.mp hnodup).2.2 r h r (List.mem_cons_self ..) rfl
    have hs' : r ∉ A' := fun h =>
      (List.nodup_append.mp (hrecords ▸ hnodup)).2.2 r h r (List.mem_cons_self ..) rfl
    have hlength := congrArg (List.idxOf r) hrecords
    rw [idxOf_append_self hs, idxOf_append_self hs'] at hlength
    rw [← (List.append_inj hrecords hlength).1, haddress] at hr
    exact (transientAddress_inj hr).2.symm
  · rintro rfl
    obtain ⟨id, hid⟩ := @findSelectionIndex_isSome _ read A B s
    obtain ⟨A', row, B', hrecords, rfl, hrow⟩ := findSelectionIndex_some hid
    have hlength := length_eq_of_addressAfter hkey hrecords hrow.symm
    refine ⟨A'.length, s, by rw [← haddress]; exact hid, ?_, .inl rfl⟩
    rw [← hlength, List.getElem?_append_right le_rfl, Nat.sub_self]
    rfl

/-! ## The merge -/

variable {localeCompare incoming} {preserveMissingSelection : Bool}

theorem selectedRecordId_eq {s : R}
    (h : selectedRow read selectedKey ids existing selectedRecordId = some s) :
    (mergeRecordsPreservingSelection read localeCompare selectedKey ids existing selectedRecordId
      incoming preserveMissingSelection).selectedRecordId =
        findSelectionIndex read (sortBy (storedOrder read localeCompare)
          (existing ++ (appending read existing incoming false).unique))
          (selectionIdentity read selectedKey existing s) := by
  cases selectedKey with
  | none =>
    obtain ⟨pre, post, rfl⟩ := List.append_of_mem (selectedRow_mem h)
    have hkey : ∃ key, selectionKeyForIndex read (pre ++ s :: post)
        ((pre ++ s :: post).idxOf s) = some key := by
      rw [selectionKeyForIndex, List.getElem?_idxOf (by simp)]
      exact ⟨_, rfl⟩
    obtain ⟨key, hkey⟩ := hkey
    simp only [mergeRecordsPreservingSelection, h, Option.bind_some, selectionIdentity, hkey,
      Option.getD_some, appendUniqueRecords]
  | some key =>
    simp only [mergeRecordsPreservingSelection, h, Option.some_or, Option.bind_some,
      selectionIdentity, appendUniqueRecords]

theorem countP_unique (p : R → Bool) (hp : ∀ r, p r = true → recordKey (read r) = none) :
    (appending read existing incoming false).unique.countP p =
      (incoming.dedup.filter fun r => r ∉ existing).countP p := by
  have happended : Appended read existing incoming _ := appending_appended existing incoming
  rw [List.countP_eq_length_filter, List.countP_eq_length_filter]
  refine List.Perm.length_eq ?_
  rw [List.perm_ext_iff_of_nodup (happended.nodup.filter _)
    (((List.nodup_dedup incoming).filter _).filter _)]
  intro r
  simp only [List.mem_filter, List.mem_dedup, decide_eq_true_eq]
  constructor
  · rintro ⟨hr, hpr⟩
    exact ⟨⟨happended.incoming r hr, happended.apart r hr⟩, hpr⟩
  · rintro ⟨⟨hr, hnew⟩, hpr⟩
    rcases happended.held r hr with h | h | ⟨key, h, -⟩
    · exact absurd h hnew
    · exact ⟨h, hpr⟩
    · rw [hp r hpr] at h
      cases h

omit [DecidableEq R] in
theorem keysOf_append (xs ys : List R) :
    keysOf read (xs ++ ys) = keysOf read xs ++ keysOf read ys :=
  List.filterMap_append

theorem nodup_append_unique_iff :
    (existing ++ (appending read existing incoming false).unique).Nodup ↔ existing.Nodup := by
  have happended : Appended read existing incoming _ := appending_appended existing incoming
  rw [List.nodup_append]
  constructor
  · exact fun h => h.1
  · exact fun h => ⟨h, happended.nodup, fun a ha b hb hab => happended.apart b hb (hab ▸ ha)⟩

theorem keysOf_append_unique_iff :
    (keysOf read (existing ++ (appending read existing incoming false).unique)).Nodup ↔
      (keysOf read existing).Nodup := by
  have happended : Appended read existing incoming _ := appending_appended existing incoming
  rw [keysOf_append, List.nodup_append]
  constructor
  · exact fun h => h.1
  · exact fun h => ⟨h, happended.keys_nodup,
      fun a ha b hb hab => happended.keys_apart b hb (hab ▸ ha)⟩

theorem positions_iff : (∀ (i : Nat) (h : i < (mergeRecordsPreservingSelection read localeCompare
      selectedKey ids existing selectedRecordId incoming
      preserveMissingSelection).records.length),
    (mergeRecordsPreservingSelection read localeCompare selectedKey ids existing selectedRecordId
      incoming preserveMissingSelection).ids (mergeRecordsPreservingSelection read localeCompare
        selectedKey ids existing selectedRecordId incoming preserveMissingSelection).records[i] =
          i) ↔ existing.Nodup := by
  have hperm := (sortBy_perm (storedOrder read localeCompare)
    (existing ++ (appending read existing incoming false).unique)).nodup_iff
  exact (assignIds_positions_iff ids _).trans (hperm.trans nodup_append_unique_iff)

variable [TransCmp localeCompare]

theorem countP_before {pre post A B : List R} {s : R} (hnodup : (pre ++ s :: post).Nodup)
    (hsort : sortBy (storedOrder read localeCompare)
      (pre ++ s :: post ++ (appending read (pre ++ s :: post) incoming false).unique) =
        A ++ s :: B) :
    A.countP (isDouble read (fingerprint read s)) =
      (pre.countP fun r => isDouble read (fingerprint read s) r &&
        (storedOrder read localeCompare r s).isLE) +
      ((post ++ incoming.dedup.filter fun r => r ∉ pre ++ s :: post).countP fun r =>
        isDouble read (fingerprint read s) r && (storedOrder read localeCompare r s == .lt)) := by
  have hall : (pre ++ s :: post ++
      (appending read (pre ++ s :: post) incoming false).unique).Nodup :=
    nodup_append_unique_iff.mpr hnodup
  rw [List.append_assoc, List.cons_append] at hall hsort
  have hcount := length_filter_before hall hsort (isDouble read (fingerprint read s))
  rw [← List.countP_eq_length_filter, ← List.countP_eq_length_filter,
    ← List.countP_eq_length_filter, List.countP_append, countP_unique] at hcount
  · rw [hcount, List.countP_append]
  · intro r hr
    simp only [isDouble, Bool.and_eq_true, decide_eq_true_eq] at hr
    exact hr.1.1

/-- The selected row is kept exactly when its doubles before it are as many as were
counted. -/
theorem selection_iff (hnodup : existing.Nodup) :
    (∀ s, selectedRow read selectedKey ids existing selectedRecordId = some s →
      ∃ id row,
        findSelectionIndex read (sortBy (storedOrder read localeCompare)
          (existing ++ (appending read existing incoming false).unique))
          (selectionIdentity read selectedKey existing s) = some id ∧
        (sortBy (storedOrder read localeCompare)
          (existing ++ (appending read existing incoming false).unique))[id]? = some row ∧
        SameRow read s row) ↔
    SelectionSteady read localeCompare selectedKey ids existing selectedRecordId incoming := by
  have hrecords : (sortBy (storedOrder read localeCompare)
      (existing ++ (appending read existing incoming false).unique)).Nodup :=
    (sortBy_perm _ _).nodup_iff.mpr (nodup_append_unique_iff.mpr hnodup)
  have hmem : ∀ s, selectedRow read selectedKey ids existing selectedRecordId = some s →
      s ∈ sortBy (storedOrder read localeCompare)
        (existing ++ (appending read existing incoming false).unique) := fun s hs =>
    mem_sortBy.mpr (List.mem_append_left _ (selectedRow_mem hs))
  constructor
  · intro h pre s post hexisting hs hkey
    have hkept := h s hs
    rw [selectionIdentity_eq hexisting hnodup hs, hkey] at hkept
    obtain ⟨A, B, hsort⟩ := List.append_of_mem (hmem s hs)
    rw [hsort] at hkept hrecords
    rw [(find_transient_iff hrecords hkey).mp hkept]
    subst hexisting
    exact countP_before hnodup hsort
  · intro h s hs
    obtain ⟨pre, post, hexisting⟩ := List.append_of_mem (selectedRow_mem hs)
    rw [selectionIdentity_eq hexisting hnodup hs]
    cases hkey : recordKey (read s) with
    | some key => exact find_stable (hmem s hs) hkey
    | none =>
      obtain ⟨A, B, hsort⟩ := List.append_of_mem (hmem s hs)
      rw [hsort] at hrecords ⊢
      refine (find_transient_iff hrecords hkey).mpr ?_
      rw [h pre s post hexisting hs hkey]
      subst hexisting
      exact (countP_before hnodup hsort).symm

variable (read localeCompare selectedKey ids existing selectedRecordId incoming
  preserveMissingSelection)

/-- Records are ordered by a total preorder, and a merge is faithful exactly when the
list it starts from has no record and no key twice and the count of doubles before the
selected row is steady. -/
theorem mergeRecords_faithful_iff : TransCmp (compareStoredRecords localeCompare) ∧
    (MergedFaithfully read localeCompare selectedKey ids existing selectedRecordId incoming
        (mergeRecordsPreservingSelection read localeCompare selectedKey ids existing
          selectedRecordId incoming preserveMissingSelection) ↔
      existing.Nodup ∧ (keysOf read existing).Nodup ∧
        SelectionSteady read localeCompare selectedKey ids existing selectedRecordId
          incoming) := by
  refine ⟨inferInstance, ?_⟩
  have happended : Appended read existing incoming _ := appending_appended existing incoming
  have hperm := sortBy_perm (storedOrder read localeCompare)
    (existing ++ (appending read existing incoming false).unique)
  have hkeys := (hperm.filterMap fun r => recordKey (read r)).nodup_iff
  constructor
  · intro h
    have hnodup := positions_iff.mp h.positions
    refine ⟨hnodup, keysOf_append_unique_iff.mp (hkeys.mp h.keys_once),
      (selection_iff hnodup).mp fun s hs => ?_⟩
    rw [← selectedRecordId_eq hs]
    exact h.selection s hs
  · rintro ⟨hnodup, honce, hsteady⟩
    refine ⟨sortBy_sorted _ _, positions_iff.mpr hnodup, ?_, ?_, ?_, ?_, ?_⟩
    · exact fun r hr => mem_sortBy.mpr (List.mem_append_left _ hr)
    · intro r hr
      rcases happended.held r hr with h | h | ⟨key, hkey, hmem⟩
      · exact .inl (mem_sortBy.mpr (List.mem_append_left _ h))
      · exact .inl (mem_sortBy.mpr (List.mem_append_right _ h))
      · have hthere : key ∈ keysOf read
            (existing ++ (appending read existing incoming false).unique) := by
          rw [keysOf_append, List.mem_append]
          exact (happended.keys key).mp hmem
        obtain ⟨there, hin, hkey'⟩ := mem_keysOf.mp hthere
        exact .inr ⟨there, mem_sortBy.mpr hin, key, hkey, hkey'⟩
    · intro r hr
      exact (List.mem_append.mp (mem_sortBy.mp hr)).imp_right (happended.incoming r)
    · exact hkeys.mpr (keysOf_append_unique_iff.mpr honce)
    · intro s hs
      rw [selectedRecordId_eq hs]
      exact (selection_iff hnodup).mpr hsteady s hs

end

/-- A record with a number and, of any other name, records without one that show the
same. -/
def sampleRecord (name : Nat) : StoredRecord where
  channel := js "System"
  level := .information
  eventId := 1
  timestampEpoch := 0
  eventRecordId := 0
  eventRecordIdText := if name = 0 then some (js "5") else none
  provider := js "p"
  computer := js "c"
  message := js "m"
  eventData := []
  rawXml := []
  sourceLabel := js "s"

/-- A double that comes in goes behind the selected row. -/
theorem mergeRecords_faithful_double : MergedFaithfully sampleRecord compareStrings none
    (fun _ => 0) [1] (some 0) [2]
    (mergeRecordsPreservingSelection sampleRecord compareStrings none (fun _ => 0) [1] (some 0)
      [2] false) := by
  refine (mergeRecords_faithful_iff sampleRecord compareStrings none (fun _ => 0) [1] (some 0)
    [2] false).2.mpr ⟨by decide, by decide, ?_⟩
  intro pre s post hexisting _ _
  have hpre : pre = [] ∧ 1 = s ∧ post = [] := by
    cases pre with
    | nil => simpa using hexisting
    | cons r pre => simp at hexisting
  obtain ⟨rfl, rfl, rfl⟩ := hpre
  decide +kernel

/-- The record with the number is counted before the selected row, and not when the row
is looked for: with nothing coming in the selection moves to the next row. -/
theorem selection_moves : (mergeRecordsPreservingSelection sampleRecord compareStrings none id
      [0, 1, 2] (some 1) [] false).selectedRecordId = some 2 ∧
    [0, 1, 2].Nodup ∧ (keysOf sampleRecord [0, 1, 2]).Nodup ∧
    ¬ MergedFaithfully sampleRecord compareStrings none id [0, 1, 2] (some 1) []
      (mergeRecordsPreservingSelection sampleRecord compareStrings none id [0, 1, 2] (some 1) []
        false) := by
  have hsort : sortBy (storedOrder sampleRecord compareStrings) [0, 1, 2] = [0, 1, 2] :=
    sortBy_of_sorted (by rw [Sorted]; decide)
  have hrecords : (mergeRecordsPreservingSelection sampleRecord compareStrings none id [0, 1, 2]
      (some 1) [] false).records = [0, 1, 2] := hsort
  have hselected : (mergeRecordsPreservingSelection sampleRecord compareStrings none id [0, 1, 2]
      (some 1) [] false).selectedRecordId = some 2 := by
    have hrow : selectedRow sampleRecord none id [0, 1, 2] (some 1) = some 1 := by decide
    rw [selectedRecordId_eq hrow]
    have hunique : (appending sampleRecord [0, 1, 2] [] false).unique = [] := rfl
    rw [hunique, List.append_nil, hsort]
    decide +kernel
  refine ⟨hselected, by decide, by decide, fun h => ?_⟩
  obtain ⟨row, id, hid, hrow, hsame⟩ := h.selection 1 (by decide)
  rw [hselected] at hid
  obtain rfl := Option.some.inj hid
  rw [hrecords] at hrow
  obtain rfl : 2 = id := Option.some.inj hrow
  rcases hsame with hsame | ⟨key, hkey, -⟩
  · exact absurd hsame (by decide)
  · exact absurd hkey (by simp [show recordKey (sampleRecord 1) = none by decide])

end EventLog
end CmTrace
