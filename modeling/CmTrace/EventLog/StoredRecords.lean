import CmTrace.Collections.StableRank
import CmTrace.EventLog.GroupedRows
import CmTrace.Js.Json

/-!
# The records of the event store

Records are ordered by time, by where they come from and by their number in the
log.  A record with a number has a stable key; a record without one is known by
what it shows, and may have a double.
-/

namespace CmTrace
namespace EventLog

open Std Collections Js

structure EvtxField where
  name : JsString
  value : JsString
  deriving DecidableEq

/-- A record as the store has it, its id in the store apart. -/
structure StoredRecord extends EvtxRecord where
  eventRecordId : Int
  eventRecordIdText : Option JsString
  provider : JsString
  computer : JsString
  message : JsString
  eventData : List EvtxField
  rawXml : JsString
  sourceLabel : JsString
  deriving DecidableEq

/-! ## The number of a record -/

structure DecimalIdParts where
  valid : Bool
  digits : JsString
  raw : JsString
  deriving DecidableEq

def isDecimal (s : JsString) : Bool := !s.isEmpty && s.all isDigit

def isZero (u : UInt16) : Bool := u == unit '0'

def isSafeInteger (n : Int) : Bool := decide (n.natAbs ≤ maxSafeInteger)

/-- The number by its text, and without a text by its value. -/
def decimalIdParts (record : StoredRecord) : DecimalIdParts :=
  let rawText := (record.eventRecordIdText.map trimSpace).getD []
  let raw := Js.intDigits record.eventRecordId
  if isDecimal rawText && !rawText.all isZero then
    { valid := true, digits := rawText.dropWhile isZero, raw := rawText }
  else if rawText.isEmpty && isSafeInteger record.eventRecordId &&
      decide (record.eventRecordId ≠ 0) && isDecimal raw then
    { valid := true, digits := raw, raw := raw }
  else { valid := false, digits := [], raw := rawText }

theorem decimalIdParts_digits {record : StoredRecord} (h : (decimalIdParts record).valid = false) :
    (decimalIdParts record).digits = [] := by
  simp only [decimalIdParts] at h ⊢
  split_ifs at h ⊢
  rfl

/-! ## The order of records -/

section Order

variable (localeCompare : JsString → JsString → Ordering)

def compareDecimalRecordIds (a b : StoredRecord) : Ordering :=
  let aId := decimalIdParts a
  let bId := decimalIdParts b
  if aId.valid ≠ bId.valid then if aId.valid then .lt else .gt
  else if aId.valid && aId.digits.length != bId.digits.length then
    if aId.digits.length < bId.digits.length then .lt else .gt
  else if aId.valid && compareStrings aId.digits bId.digits != .eq then
    compareStrings aId.digits bId.digits
  else localeCompare aId.raw bId.raw

def compareStoredRecords (a b : StoredRecord) : Ordering :=
  (compare a.timestampEpoch b.timestampEpoch).then <|
    (localeCompare a.sourceLabel b.sourceLabel).then <|
      (localeCompare a.channel b.channel).then <|
        (compareDecimalRecordIds localeCompare a b).then (compare a.eventId b.eventId)

/-- Records with a number before those without. -/
def validRank (record : StoredRecord) : Nat := if (decimalIdParts record).valid then 0 else 1

theorem compareDecimalRecordIds_eq : compareDecimalRecordIds localeCompare =
    compareLex (orderOn compare validRank)
      (compareLex (orderOn compare fun record => (decimalIdParts record).digits.length)
        (compareLex (orderOn compareStrings fun record => (decimalIdParts record).digits)
          (orderOn localeCompare fun record => (decimalIdParts record).raw))) := by
  funext a b
  have hself : compareStrings [] [] = .eq := cmp_self compareStrings []
  have hless : compare 0 1 = Ordering.lt := rfl
  have hmore : compare 1 0 = Ordering.gt := rfl
  simp only [compareDecimalRecordIds, compareLex, orderOn, validRank]
  cases ha : (decimalIdParts a).valid <;> cases hb : (decimalIdParts b).valid
  · simp [decimalIdParts_digits ha, decimalIdParts_digits hb, hself]
  · simp [hmore]
  · simp [hless]
  · rcases Nat.lt_trichotomy (decimalIdParts a).digits.length (decimalIdParts b).digits.length
      with hlt | heq | hgt
    · simp [hlt, hlt.ne, Nat.compare_eq_lt.mpr hlt]
    · cases hdigits : compareStrings (decimalIdParts a).digits (decimalIdParts b).digits <;>
        simp [heq]
    · simp [hgt.ne', hgt.not_gt, Nat.compare_eq_gt.mpr hgt]

theorem compareStoredRecords_eq : compareStoredRecords localeCompare =
    compareLex (orderOn compare fun record => record.timestampEpoch)
      (compareLex (orderOn localeCompare fun record => record.sourceLabel)
        (compareLex (orderOn localeCompare fun record => record.channel)
          (compareLex (compareDecimalRecordIds localeCompare)
            (orderOn compare fun record => record.eventId)))) := rfl

instance [TransCmp localeCompare] : TransCmp (compareDecimalRecordIds localeCompare) := by
  rw [compareDecimalRecordIds_eq]
  infer_instance

/-- Records are ordered by a total preorder when texts are. -/
instance [TransCmp localeCompare] : TransCmp (compareStoredRecords localeCompare) := by
  rw [compareStoredRecords_eq]
  infer_instance

end Order

/-! ## Keys -/

/-- The stable key of a record that has a number. -/
def recordKey (record : StoredRecord) : Option JsString :=
  let identity := decimalIdParts record
  if !identity.valid then none
  else some (record.sourceLabel ++ 0 :: (record.channel ++ 0 :: (js "decimal:" ++ identity.digits)))

theorem zero_notMem_of_isDecimal {s : JsString} (h : s.all isDigit = true) : (0 : UInt16) ∉ s :=
  fun hmem => absurd (List.all_eq_true.mp h 0 hmem) (by decide)

theorem zero_notMem_decimalIdParts (record : StoredRecord) :
    (0 : UInt16) ∉ (decimalIdParts record).digits := by
  have hall : ∀ {s : JsString}, isDecimal s = true → s.all isDigit = true := fun h =>
    ((Bool.and_eq_true _ _).mp h).2
  simp only [decimalIdParts]
  split_ifs with htext hvalue
  · have hdecimal := hall ((Bool.and_eq_true _ _).mp htext).1
    exact fun h => zero_notMem_of_isDecimal hdecimal ((List.dropWhile_sublist _).subset h)
  · exact zero_notMem_of_isDecimal (hall ((Bool.and_eq_true _ _).mp hvalue).2)
  · exact List.not_mem_nil

/-- A key tells the source, the channel and the number, when sources have no zero unit. -/
theorem recordKey_inj {a b : StoredRecord} {key : JsString} (ha : recordKey a = some key)
    (hb : recordKey b = some key) (hsa : 0 ∉ a.sourceLabel) (hsb : 0 ∉ b.sourceLabel) :
    a.sourceLabel = b.sourceLabel ∧ a.channel = b.channel ∧
      (decimalIdParts a).digits = (decimalIdParts b).digits := by
  have hzero : (0 : UInt16) ∉ js "decimal:" := by decide
  have htail : ∀ record : StoredRecord,
      (0 : UInt16) ∉ (js "decimal:" ++ (decimalIdParts record).digits).reverse := by
    intro record
    rw [List.mem_reverse, List.mem_append, not_or]
    exact ⟨hzero, zero_notMem_decimalIdParts record⟩
  simp only [recordKey] at ha hb
  split_ifs at ha hb
  have hkey := (Option.some.inj ha).trans (Option.some.inj hb).symm
  obtain ⟨hsource, hrest⟩ := append_cons_inj hsa hsb hkey
  -- the last zero unit is before the number
  have hreverse := congrArg List.reverse hrest
  rw [List.reverse_append, List.reverse_append, List.reverse_cons, List.reverse_cons,
    List.append_assoc, List.append_assoc, List.singleton_append, List.singleton_append] at hreverse
  obtain ⟨hnumber, hchannel⟩ := append_cons_inj (htail a) (htail b) hreverse
  exact ⟨hsource, List.reverse_injective hchannel,
    List.append_cancel_left (List.reverse_injective hnumber)⟩

def jsonArray (values : List JsString) : JsString :=
  unit '[' :: (joinWith (unit ',') values ++ [unit ']'])

def producerlessFingerprint (record : StoredRecord) : JsString :=
  jsonArray [
    quote record.sourceLabel,
    quote record.channel,
    Js.intDigits record.timestampEpoch,
    quote record.provider,
    Js.digits record.eventId,
    quote record.level.name,
    quote record.computer,
    quote record.message,
    jsonArray (record.eventData.map fun field => jsonArray [quote field.name, quote field.value]),
    quote record.rawXml]

/-! ### No zero unit in a fingerprint -/

theorem hexUnit_ne_zero {n : Nat} (h : n < 16) : hexUnit n ≠ 0 := by
  interval_cases n <;> decide

theorem zero_notMem_hexUnits (u : UInt16) : (0 : UInt16) ∉ hexUnits u := by
  have hdigit : ∀ n, (0 : UInt16) ≠ hexUnit (n % 16) := fun n =>
    (hexUnit_ne_zero (Nat.mod_lt n (by decide))).symm
  simp [hexUnits, hdigit]

theorem zero_notMem_escapeUnit (u : UInt16) : (0 : UInt16) ∉ escapeUnit u := by
  rw [escapeUnit]
  cases hletter : escapes.lookup u with
  | some letter =>
    have hletters : ∀ e ∈ escapes, (0 : UInt16) ≠ e.2 := by
      intro e he
      simp only [escapes, List.mem_cons, List.not_mem_nil, or_false] at he
      rcases he with rfl | rfl | rfl | rfl | rfl | rfl | rfl <;> decide
    obtain ⟨before, after, hescapes, -⟩ := List.lookup_eq_some_iff.mp hletter
    have hne := hletters (u, letter) (hescapes ▸ by simp)
    simp only [List.mem_cons, List.not_mem_nil, or_false, not_or]
    exact ⟨by decide, hne⟩
  | none =>
    have hslash : (0 : UInt16) ≠ unit '\\' := by decide
    have hu : (0 : UInt16) ≠ unit 'u' := by decide
    split_ifs with hcontrol
    · simp [hslash, hu, zero_notMem_hexUnits]
    · rw [List.mem_singleton]
      rintro rfl
      exact hcontrol (by decide)

theorem zero_notMem_escapeAfter (before : Option UInt16) (s : JsString) :
    (0 : UInt16) ∉ escapeAfter before s := by
  have hslash : (0 : UInt16) ≠ unit '\\' := by decide
  have hu : (0 : UInt16) ≠ unit 'u' := by decide
  induction s generalizing before with
  | nil => exact List.not_mem_nil
  | cons u rest ih =>
    rw [escapeAfter, List.mem_append, not_or]
    refine ⟨?_, ih _⟩
    split_ifs
    · simp [hslash, hu, zero_notMem_hexUnits]
    · exact zero_notMem_escapeUnit u

theorem zero_notMem_quote (s : JsString) : (0 : UInt16) ∉ quote s := by
  have hquote : (0 : UInt16) ≠ unit '"' := by decide
  simp [quote, hquote, zero_notMem_escapeAfter]

theorem zero_notMem_intDigits (n : Int) : (0 : UInt16) ∉ Js.intDigits n := by
  intro h
  have hunit := isNumberUnit_intDigits n 0 h
  revert hunit
  decide

theorem zero_notMem_jsonArray {values : List JsString} (h : ∀ value ∈ values, 0 ∉ value) :
    (0 : UInt16) ∉ jsonArray values := by
  have hjoin : ∀ values : List JsString, (∀ value ∈ values, 0 ∉ value) →
      (0 : UInt16) ∉ joinWith (unit ',') values := by
    intro values
    induction values with
    | nil => exact fun _ => List.not_mem_nil
    | cons value rest ih =>
      intro h
      obtain ⟨hvalue, hrest⟩ := List.forall_mem_cons.mp h
      cases rest with
      | nil => exact hvalue
      | cons next rest =>
        have hcomma : (0 : UInt16) ≠ unit ',' := by decide
        rw [joinWith, List.mem_append, List.mem_cons, not_or, not_or]
        exact ⟨hvalue, hcomma, ih hrest⟩
  have hopen : (0 : UInt16) ≠ unit '[' := by decide
  have hclose : (0 : UInt16) ≠ unit ']' := by decide
  simp [jsonArray, hopen, hclose, hjoin values h]

theorem zero_notMem_fingerprint (record : StoredRecord) :
    (0 : UInt16) ∉ producerlessFingerprint record := by
  refine zero_notMem_jsonArray ?_
  simp only [List.forall_mem_cons, List.not_mem_nil, false_imp_iff, implies_true, and_true]
  refine ⟨zero_notMem_quote _, zero_notMem_quote _, zero_notMem_intDigits _,
    zero_notMem_quote _, zero_notMem_intDigits record.eventId, zero_notMem_quote _,
    zero_notMem_quote _, zero_notMem_quote _, zero_notMem_jsonArray ?_, zero_notMem_quote _⟩
  rintro value hvalue
  obtain ⟨field, -, rfl⟩ := List.mem_map.mp hvalue
  refine zero_notMem_jsonArray ?_
  simp only [List.forall_mem_cons, List.not_mem_nil, false_imp_iff, implies_true, and_true]
  exact ⟨zero_notMem_quote _, zero_notMem_quote _⟩

end EventLog
end CmTrace
