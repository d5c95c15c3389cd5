import CmTrace.EventLog.StoredRecords

/-!
# The selected row across a merge

Records that come in are appended unless they are there, the whole is sorted, and
ids are positions.  The selected row is found again by its stable key, or by what it
shows and how many rows before it show the same.
-/

namespace CmTrace
namespace EventLog

open Std Collections Js

/-! ## Appending -/

/-- The sets and the result of a walk over incoming records. -/
structure Appending (R : Type) where
  keys : List JsString
  seenRecords : List R
  producerlessFingerprints : Option (List JsString)
  unique : List R := []
  droppedAgainstExisting : Nat := 0

section Model

variable {R : Type} [DecidableEq R] (read : R → StoredRecord)

def keysOf (records : List R) : List JsString := records.filterMap fun r => recordKey (read r)

def fingerprint (r : R) : JsString := producerlessFingerprint (read r)

def Appending.drop (s : Appending R) (againstExisting : Bool) : Appending R :=
  { s with droppedAgainstExisting :=
      if againstExisting then s.droppedAgainstExisting + 1 else s.droppedAgainstExisting }

def appendRecord (existing : List R) (existingFingerprints : Option (List JsString))
    (s : Appending R) (record : R) : Appending R :=
  match recordKey (read record) with
  | none =>
    if record ∈ s.seenRecords then s.drop (decide (record ∈ existing))
    else match s.producerlessFingerprints with
      | some fingerprints =>
        if fingerprint read record ∈ fingerprints then
          s.drop (existingFingerprints.any fun known => fingerprint read record ∈ known)
        else
          { s with
            producerlessFingerprints := some (fingerprint read record :: fingerprints)
            seenRecords := record :: s.seenRecords
            unique := s.unique ++ [record] }
      | none =>
        { s with
          seenRecords := record :: s.seenRecords
          unique := s.unique ++ [record] }
  | some key =>
    if key ∈ s.keys then s.drop (decide (key ∈ keysOf read existing))
    else { s with keys := key :: s.keys, unique := s.unique ++ [record] }

def appending (existing incoming : List R) (deduplicateProducerless : Bool) : Appending R :=
  let fingerprints :=
    if deduplicateProducerless then
      some ((existing.filter fun r => recordKey (read r) = none).map (fingerprint read))
    else none
  incoming.foldl (appendRecord read existing fingerprints)
    { keys := keysOf read existing
      seenRecords := existing
      producerlessFingerprints := fingerprints }

def appendUniqueRecords (existing incoming : List R) (deduplicateProducerless : Bool) :
    List R × Nat :=
  let s := appending read existing incoming deduplicateProducerless
  (existing ++ s.unique, s.droppedAgainstExisting)

/-! ## The address of a selected row -/

def stableAddress (key : JsString) : JsString := js "stable:" ++ key

def transientAddress (fingerprint : JsString) (occurrence : Nat) : JsString :=
  js "transient:" ++ (fingerprint ++ 0 :: Js.digits occurrence)

/-- The address of the row at an index, by all rows before it that show the same. -/
def selectionKeyForIndex (records : List R) (index : Nat) : Option JsString :=
  records[index]?.map fun record =>
    match recordKey (read record) with
    | some stableKey => stableAddress stableKey
    | none => transientAddress (fingerprint read record)
        ((records.take index).countP fun r => fingerprint read r = fingerprint read record)

def findSelectionFrom (key : JsString) : (JsString → Nat) → Nat → List R → Option Nat
  | _, _, [] => none
  | occurrences, index, record :: rest =>
    match recordKey (read record) with
    | some stableKey =>
      if stableAddress stableKey = key then some index
      else findSelectionFrom key occurrences (index + 1) rest
    | none =>
      let print := fingerprint read record
      if transientAddress print (occurrences print) = key then some index
      else findSelectionFrom key (Function.update occurrences print (occurrences print + 1))
        (index + 1) rest

/-- The row at an address, by the rows without a number before it. -/
def findSelectionIndex (records : List R) (key : JsString) : Option Nat :=
  findSelectionFrom read key (fun _ => 0) 0 records

/-! ## Merging -/

structure Merged (R : Type) where
  records : List R
  ids : R → Nat
  selectedRecordId : Option Nat
  preservedSelectedRecordKey : Option JsString

/-- The selected row, if it is in the list: by the address that was kept, or else by
its id. -/
def selectedRow (selectedKey : Option JsString) (ids : R → Nat) (existing : List R)
    (selectedRecordId : Option Nat) : Option R :=
  match selectedKey with
  | none => selectedRecordId.bind fun id => existing.find? fun r => ids r = id
  | some key => (findSelectionIndex read existing key).bind fun index => existing[index]?

def assignIds (ids : R → Nat) (records : List R) : R → Nat :=
  records.zipIdx.foldl (fun ids row => Function.update ids row.1 row.2) ids

variable (localeCompare : JsString → JsString → Ordering)

def storedOrder (a b : R) : Ordering := compareStoredRecords localeCompare (read a) (read b)

def mergeRecordsPreservingSelection (selectedKey : Option JsString) (ids : R → Nat)
    (existing : List R) (selectedRecordId : Option Nat) (incoming : List R)
    (preserveMissingSelection : Bool) : Merged R :=
  let selected := match selectedKey with
    | none => selectedRow read none ids existing selectedRecordId
    | some key => (selectedRow read (some key) ids existing selectedRecordId).or <|
        (findSelectionIndex read incoming key).bind fun index => incoming[index]?
  let records := sortBy (storedOrder read localeCompare)
    (appendUniqueRecords read existing incoming false).1
  let selectedIdentity := match selectedKey with
    | some key => some key
    | none => selected.bind fun r => selectionKeyForIndex read existing (existing.idxOf r)
  { records := records
    ids := assignIds ids records
    selectedRecordId := selected.bind fun r => match selectedIdentity with
      | none => records.findIdx? fun record => record = r
      | some key => findSelectionIndex read records key
    preservedSelectedRecordKey :=
      if selected.isSome || selectedKey.isNone || !preserveMissingSelection then none
      else selectedKey }

end Model

/-! ## What is appended -/

section Append

variable {R : Type} {read : R → StoredRecord}
variable {existing done : List R} {s : Appending R} {record : R}

theorem mem_keysOf {records : List R} {key : JsString} :
    key ∈ keysOf read records ↔ ∃ r ∈ records, recordKey (read r) = some key :=
  List.mem_filterMap

/-- The walk over incoming records has appended each that was not there. -/
structure Appended (read : R → StoredRecord) (existing done : List R) (s : Appending R) :
    Prop where
  fingerprints : s.producerlessFingerprints = none
  keys : ∀ key, key ∈ s.keys ↔ key ∈ keysOf read existing ∨ key ∈ keysOf read s.unique
  seen : ∀ r, recordKey (read r) = none → (r ∈ s.seenRecords ↔ r ∈ existing ∨ r ∈ s.unique)
  incoming : ∀ r ∈ s.unique, r ∈ done
  nodup : s.unique.Nodup
  apart : ∀ r ∈ s.unique, r ∉ existing
  keys_nodup : (keysOf read s.unique).Nodup
  keys_apart : ∀ key ∈ keysOf read s.unique, key ∉ keysOf read existing
  held : ∀ r ∈ done, r ∈ existing ∨ r ∈ s.unique ∨
    ∃ key, recordKey (read r) = some key ∧ key ∈ s.keys

theorem appended_start : Appended read existing []
    { keys := keysOf read existing
      seenRecords := existing
      producerlessFingerprints := none } where
  fingerprints := rfl
  keys key := by simp [keysOf]
  seen r _ := by simp
  incoming r hr := absurd hr List.not_mem_nil
  nodup := List.nodup_nil
  apart r hr := absurd hr List.not_mem_nil
  keys_nodup := List.nodup_nil
  keys_apart key hkey := absurd hkey List.not_mem_nil
  held r hr := absurd hr List.not_mem_nil

theorem Appended.drop (h : Appended read existing done s) (againstExisting : Bool)
    (hthere : record ∈ existing ∨ record ∈ s.unique ∨
      ∃ key, recordKey (read record) = some key ∧ key ∈ s.keys) :
    Appended read existing (done ++ [record]) (s.drop againstExisting) where
  fingerprints := h.fingerprints
  keys := h.keys
  seen := h.seen
  incoming r hr := List.mem_append_left _ (h.incoming r hr)
  nodup := h.nodup
  apart := h.apart
  keys_nodup := h.keys_nodup
  keys_apart := h.keys_apart
  held r hr := by
    rcases List.mem_append.mp hr with hr | hr
    · exact h.held r hr
    · rwa [List.mem_singleton.mp hr]

theorem keysOf_concat_none (records : List R) (hkey : recordKey (read record) = none) :
    keysOf read (records ++ [record]) = keysOf read records := by
  simp [keysOf, hkey]

theorem keysOf_concat_some (records : List R) {key : JsString}
    (hkey : recordKey (read record) = some key) :
    keysOf read (records ++ [record]) = keysOf read records ++ [key] := by
  simp [keysOf, hkey]

theorem Appended.appendTransient (h : Appended read existing done s)
    (hkey : recordKey (read record) = none) (hnew : record ∉ s.seenRecords) :
    Appended read existing (done ++ [record])
      { s with
        seenRecords := record :: s.seenRecords
        unique := s.unique ++ [record] } := by
  have hseen := h.seen record hkey
  rw [hseen, not_or] at hnew
  refine ⟨h.fingerprints, ?_, ?_, ?_, ?_, ?_, ?_, ?_, ?_⟩
  · simpa only [keysOf_concat_none _ hkey] using h.keys
  · intro r hr
    rw [List.mem_cons, h.seen r hr, List.mem_append, List.mem_singleton]
    tauto
  · intro r hr
    rcases List.mem_append.mp hr with hr | hr
    · exact List.mem_append_left _ (h.incoming r hr)
    · exact List.mem_append_right _ hr
  · exact List.nodup_append.mpr ⟨h.nodup, List.nodup_singleton _, fun a ha b hb => by
      rw [List.mem_singleton.mp hb]
      exact fun hab => hnew.2 (hab ▸ ha)⟩
  · intro r hr
    rcases List.mem_append.mp hr with hr | hr
    · exact h.apart r hr
    · rw [List.mem_singleton.mp hr]
      exact hnew.1
  · simpa only [keysOf_concat_none _ hkey] using h.keys_nodup
  · simpa only [keysOf_concat_none _ hkey] using h.keys_apart
  · intro r hr
    rcases List.mem_append.mp hr with hr | hr
    · exact (h.held r hr).imp_right (·.imp_left (List.mem_append_left _))
    · exact .inr (.inl (List.mem_append_right _ hr))

theorem Appended.appendStable (h : Appended read existing done s) {key : JsString}
    (hkey : recordKey (read record) = some key) (hnew : key ∉ s.keys) :
    Appended read existing (done ++ [record])
      { s with keys := key :: s.keys, unique := s.unique ++ [record] } := by
  have hkeys := h.keys key
  rw [hkeys, not_or] at hnew
  refine ⟨h.fingerprints, ?_, ?_, ?_, ?_, ?_, ?_, ?_, ?_⟩
  · intro other
    rw [List.mem_cons, h.keys other, keysOf_concat_some _ hkey, List.mem_append,
      List.mem_singleton]
    tauto
  · intro r hr
    have hne : r ≠ record := fun hr' => by
      rw [hr', hkey] at hr
      cases hr
    rw [h.seen r hr, List.mem_append, List.mem_singleton]
    tauto
  · intro r hr
    rcases List.mem_append.mp hr with hr | hr
    · exact List.mem_append_left _ (h.incoming r hr)
    · exact List.mem_append_right _ hr
  · refine List.nodup_append.mpr ⟨h.nodup, List.nodup_singleton _, fun a ha b hb hab => ?_⟩
    rw [List.mem_singleton.mp hb] at hab
    exact hnew.2 (mem_keysOf.mpr ⟨a, ha, hab ▸ hkey⟩)
  · intro r hr
    rcases List.mem_append.mp hr with hr | hr
    · exact h.apart r hr
    · rw [List.mem_singleton.mp hr]
      exact fun hmem => hnew.1 (mem_keysOf.mpr ⟨record, hmem, hkey⟩)
  · rw [keysOf_concat_some _ hkey]
    exact List.nodup_append.mpr ⟨h.keys_nodup, List.nodup_singleton _, fun a ha b hb => by
      rw [List.mem_singleton.mp hb]
      exact fun hab => hnew.2 (hab ▸ ha)⟩
  · intro other hother
    rw [keysOf_concat_some _ hkey] at hother
    rcases List.mem_append.mp hother with hother | hother
    · exact h.keys_apart other hother
    · rw [List.mem_singleton.mp hother]
      exact hnew.1
  · intro r hr
    rcases List.mem_append.mp hr with hr | hr
    · rcases h.held r hr with hr | hr | ⟨other, hother, hmem⟩
      · exact .inl hr
      · exact .inr (.inl (List.mem_append_left _ hr))
      · exact .inr (.inr ⟨other, hother, List.mem_cons_of_mem _ hmem⟩)
    · exact .inr (.inl (List.mem_append_right _ hr))

variable [DecidableEq R]

theorem Appended.step (h : Appended read existing done s) :
    Appended read existing (done ++ [record]) (appendRecord read existing none s record) := by
  rw [appendRecord]
  cases hkey : recordKey (read record) with
  | none =>
    simp only [h.fingerprints]
    split_ifs with hseen
    · exact h.drop _ (((h.seen record hkey).mp hseen).imp_right .inl)
    · have hnext := h.appendTransient hkey hseen
      rwa [h.fingerprints] at hnext
  | some key =>
    dsimp only
    split_ifs with hkeys
    · exact h.drop _ (.inr (.inr ⟨key, hkey, hkeys⟩))
    · exact h.appendStable hkey hkeys

theorem appending_appended (existing incoming : List R) :
    Appended read existing incoming (appending read existing incoming false) := by
  have hrun : ∀ (incoming done : List R) (s : Appending R), Appended read existing done s →
      Appended read existing (done ++ incoming)
        (incoming.foldl (appendRecord read existing none) s) := by
    intro incoming
    induction incoming with
    | nil => exact fun done s h => by rwa [List.append_nil]
    | cons record rest ih =>
      intro done s h
      have hrest := ih (done ++ [record]) _ h.step
      rwa [List.append_assoc, List.singleton_append] at hrest
  exact hrun incoming [] _ appended_start

end Append

/-! ## Finding a row again -/

section Find

variable {R : Type} (read : R → StoredRecord)

/-- A row without a number that shows the same as another. -/
def isDouble (print : JsString) (r : R) : Bool :=
  decide (recordKey (read r) = none) && decide (fingerprint read r = print)

/-- The address of a row that comes after some others. -/
def addressAfter (before : List R) (r : R) : JsString :=
  match recordKey (read r) with
  | some key => stableAddress key
  | none => transientAddress (fingerprint read r)
      (before.countP (isDouble read (fingerprint read r)))

variable {read}

theorem stableAddress_ne_transientAddress (key print : JsString) (n : Nat) :
    stableAddress key ≠ transientAddress print n := by
  intro h
  exact absurd (List.cons.inj h).1 (by decide)

theorem stableAddress_injective : Function.Injective stableAddress :=
  fun _ _ h => List.append_cancel_left h

theorem transientAddress_inj {a b : R} {m n : Nat}
    (h : transientAddress (fingerprint read a) m = transientAddress (fingerprint read b) n) :
    fingerprint read a = fingerprint read b ∧ m = n := by
  obtain ⟨hprint, hcount⟩ := append_cons_inj (zero_notMem_fingerprint _)
    (zero_notMem_fingerprint _) (List.append_cancel_left h)
  exact ⟨hprint, digits_injective hcount⟩

theorem findSelectionFrom_spec {key : JsString} (rest before : List R) {index : Nat}
    (hindex : index = before.length) :
    let found := findSelectionFrom read key (fun print => before.countP (isDouble read print))
      index rest
    (∀ i, found = some i → ∃ A r B, rest = A ++ r :: B ∧ i = index + A.length ∧
      addressAfter read (before ++ A) r = key) ∧
    (found = none → ∀ A r B, rest = A ++ r :: B → addressAfter read (before ++ A) r ≠ key) := by
  induction rest generalizing before index with
  | nil =>
    refine ⟨fun i h => (by cases h), fun _ A r B h => ?_⟩
    exact absurd h.symm (by simp)
  | cons record rest ih =>
    have hnext := @ih (before ++ [record]) (index + 1) (by simp [hindex])
    have hupdate : (fun print => (before ++ [record]).countP (isDouble read print)) =
        if recordKey (read record) = none then
          Function.update (fun print => before.countP (isDouble read print))
            (fingerprint read record)
            (before.countP (isDouble read (fingerprint read record)) + 1)
        else fun print => before.countP (isDouble read print) := by
      funext print
      by_cases hkey : recordKey (read record) = none
      · by_cases hprint : print = fingerprint read record
        · subst hprint
          simp [hkey, isDouble]
        · simp [hkey, isDouble, hprint, Ne.symm hprint]
      · simp [hkey, isDouble]
    have hfound : findSelectionFrom read key (fun print => before.countP (isDouble read print))
        index (record :: rest) =
          if addressAfter read before record = key then some index
          else findSelectionFrom read key
            (fun print => (before ++ [record]).countP (isDouble read print)) (index + 1)
            rest := by
      rw [hupdate, findSelectionFrom, addressAfter]
      cases recordKey (read record) <;> simp
    rw [hfound]
    constructor
    · intro i hi
      split_ifs at hi with haddress
      · exact ⟨[], record, rest, rfl, by simpa using hi.symm, by simpa using haddress⟩
      · obtain ⟨A, r, B, hrest, hindex, haddress⟩ := hnext.1 i hi
        refine ⟨record :: A, r, B, by rw [hrest]; rfl, ?_, by simpa using haddress⟩
        rw [hindex, List.length_cons]
        omega
    · intro hnone A r B hrest
      split_ifs at hnone with haddress
      cases A with
      | nil =>
        obtain ⟨rfl, -⟩ := List.cons.inj hrest
        simpa using haddress
      | cons a A =>
        obtain ⟨rfl, htail⟩ := List.cons.inj hrest
        simpa using hnext.2 hnone A r B htail

theorem findSelectionIndex_some {records : List R} {key : JsString} {i : Nat}
    (h : findSelectionIndex read records key = some i) :
    ∃ A r B, records = A ++ r :: B ∧ i = A.length ∧ addressAfter read A r = key := by
  obtain ⟨A, r, B, hrecords, hi, haddress⟩ := (findSelectionFrom_spec records [] rfl).1 i h
  exact ⟨A, r, B, hrecords, by simpa using hi, haddress⟩

theorem findSelectionIndex_isSome {A B : List R} {r : R} :
    ∃ i, findSelectionIndex read (A ++ r :: B) (addressAfter read A r) = some i := by
  cases hfound : findSelectionIndex read (A ++ r :: B) (addressAfter read A r) with
  | some i => exact ⟨i, rfl⟩
  | none => exact absurd rfl ((findSelectionFrom_spec (A ++ r :: B) [] rfl).2 hfound A r B rfl)

theorem length_eq_of_addressAfter {A B A' B' : List R} {r r' : R}
    (hkey : recordKey (read r) = none) (hrecords : A ++ r :: B = A' ++ r' :: B')
    (haddress : addressAfter read A r = addressAfter read A' r') : A.length = A'.length := by
  have hless : ∀ {A B A' B' : List R} {r r' : R}, recordKey (read r) = none →
      A ++ r :: B = A' ++ r' :: B' → fingerprint read r = fingerprint read r' →
      A.countP (isDouble read (fingerprint read r)) =
        A'.countP (isDouble read (fingerprint read r)) → ¬ A.length < A'.length := by
    intro A B A' B' r r' hkey hrecords hprint hcount hlt
    have hprefix : A ++ [r] <+: A' := by
      have hleft : A ++ [r] <+: A ++ r :: B := ⟨B, by simp⟩
      refine List.prefix_of_prefix_length_le hleft ⟨r' :: B', hrecords.symm⟩ ?_
      rw [List.length_append, List.length_singleton]
      omega
    have hle := hprefix.sublist.countP_le (p := isDouble read (fingerprint read r))
    rw [List.countP_append, List.countP_singleton, isDouble, hkey] at hle
    simp only [decide_true, Bool.and_self, if_true] at hle
    omega
  cases hkey' : recordKey (read r') with
  | some key =>
    rw [addressAfter, addressAfter, hkey, hkey'] at haddress
    exact absurd haddress.symm (stableAddress_ne_transientAddress _ _ _)
  | none =>
    rw [addressAfter, addressAfter, hkey, hkey'] at haddress
    obtain ⟨hprint, hcount⟩ := transientAddress_inj haddress
    refine Nat.le_antisymm (Nat.le_of_not_lt (hless hkey' hrecords.symm hprint.symm ?_))
      (Nat.le_of_not_lt (hless hkey hrecords hprint ?_))
    · rw [← hcount, hprint]
    · rw [hcount, hprint]

end Find

end EventLog
end CmTrace
