import CmTrace.Collections.GroupTree
import CmTrace.EventLog.VisibleFilter
import CmTrace.Js.Uri

/-!
# The event list in groups

The rows of the list when it is grouped by some fields: a header for each group,
and below it, unless it is collapsed, its groups or its records.  A group is known
by a key made of the fields and the escaped values of all groups around it.
-/

namespace CmTrace
namespace EventLog

open Collections Js

inductive EvtxGroupField where
  | level
  | provider
  | channel
  | eventId
  | day
  deriving DecidableEq, Repr

def EvtxGroupField.name : EvtxGroupField → JsString
  | level    => js "level"
  | provider => js "provider"
  | channel  => js "channel"
  | eventId  => js "eventId"
  | day      => js "day"

def EvtxLevel.name : EvtxLevel → JsString
  | critical    => js "Critical"
  | error       => js "Error"
  | warning     => js "Warning"
  | information => js "Information"
  | verbose     => js "Verbose"

inductive EvtxTimeZoneMode where
  | utc
  | local
  deriving DecidableEq, Repr

/-- The year, the month from zero and the day of the month. -/
structure CalendarDate where
  fullYear : Int
  month : Nat
  date : Nat
  deriving DecidableEq

/-- The calendar of a zone; a time out of its range has no date. -/
abbrev Calendar := EvtxTimeZoneMode → Int → Option CalendarDate

/-- A record with what it is grouped by. -/
structure ListedRecord extends EvtxRecord where
  provider : JsString
  deriving DecidableEq

inductive EvtxRow where
  | group (key : JsString) (field : EvtxGroupField) (label : JsString) (depth count : Nat)
      (collapsed : Bool)
  | record (record : ListedRecord) (depth : Nat)
  deriving DecidableEq

def intDigits (n : Int) : JsString := if n < 0 then unit '-' :: digits n.natAbs else digits n.natAbs

def pad (value : Nat) : JsString :=
  List.replicate (2 - (digits value).length) (unit '0') ++ digits value

def eventDateKey (calendar : Calendar) (epochMs : Int) (mode : EvtxTimeZoneMode) : JsString :=
  match calendar mode epochMs with
  | none => js "NaN-NaN-NaN"
  | some date => intDigits date.fullYear ++ unit '-' :: (pad (date.month + 1) ++
      unit '-' :: pad date.date)

def groupValue (calendar : Calendar) (timeZone : EvtxTimeZoneMode) (field : EvtxGroupField)
    (record : ListedRecord) : JsString :=
  match field with
  | .level    => record.level.name
  | .provider => if record.provider = [] then js "(no provider)" else record.provider
  | .channel  => if record.channel = [] then js "(no channel)" else record.channel
  | .eventId  => digits record.eventId
  | .day      => eventDateKey calendar record.timestampEpoch timeZone

section Rows

variable (calendar : Calendar) (timeZone : EvtxTimeZoneMode) (collapsedKeys : List JsString)

/-- The rows of a group; there are none when a value cannot be escaped. -/
def walk : List EvtxGroupField → Nat → JsString → List ListedRecord → Option (List EvtxRow)
  | [], depth, _, subset => some (subset.map fun record => .record record depth)
  | field :: fields, depth, parentKey, subset => do
    let rows ← (Collections.groupBy (groupValue calendar timeZone field) subset).mapM
      fun bucket => do
        let encoded ← encodeURIComponent bucket.1
        let key := parentKey ++ unit '/' :: (field.name ++ unit '=' :: encoded)
        let collapsed := decide (key ∈ collapsedKeys)
        let below ← if collapsed then some [] else walk fields (depth + 1) key bucket.2
        some (.group key field bucket.1 depth bucket.2.length collapsed :: below)
    some rows.flatten

def buildGroupedRows (records : List ListedRecord) (groupBy : List EvtxGroupField) :
    Option (List EvtxRow) :=
  if groupBy = [] then some (records.map fun record => .record record 0)
  else walk calendar timeZone collapsedKeys groupBy 0 [] records

end Rows

namespace EvtxRow

def record? : EvtxRow → Option ListedRecord
  | group .. => none
  | record r _ => some r

def key? : EvtxRow → Option JsString
  | group key .. => some key
  | record .. => none

/-- The row when the group of a key is collapsed. -/
def collapse (key : JsString) : EvtxRow → EvtxRow
  | group key' field label depth count collapsed =>
    group key' field label depth count (collapsed || decide (key' = key))
  | record r depth => record r depth

end EvtxRow

/-! ## Keys -/

/-- The part of a key that a field and a value make. -/
def keySegment (step : EvtxGroupField × JsString) : JsString :=
  step.1.name ++ unit '=' :: (encodeURIComponent step.2).getD []

/-- The key of the group that the steps lead to. -/
def keyOfSteps (steps : List (EvtxGroupField × JsString)) : JsString :=
  steps.flatMap fun step => unit '/' :: keySegment step

/-- The keys of all groups that a record is in. -/
def ancestorKeys (calendar : Calendar) (timeZone : EvtxTimeZoneMode) :
    List EvtxGroupField → JsString → ListedRecord → List JsString
  | [], _, _ => []
  | field :: fields, parentKey, record =>
    let key := parentKey ++
      unit '/' :: keySegment (field, groupValue calendar timeZone field record)
    key :: ancestorKeys calendar timeZone fields key record

def Encodable (step : EvtxGroupField × JsString) : Prop := (encodeURIComponent step.2).isSome

theorem slash_not_mem_keySegment (step : EvtxGroupField × JsString) :
    unit '/' ∉ keySegment step := by
  rw [keySegment, List.mem_append, List.mem_cons, not_or, not_or]
  refine ⟨?_, by decide, ?_⟩
  · cases step.1
    all_goals decide
  · cases h : encodeURIComponent step.2 with
    | none => exact List.not_mem_nil
    | some encoded => exact slash_not_mem_encodeURIComponent h

theorem keySegment_inj {step step' : EvtxGroupField × JsString} (henc : Encodable step)
    (henc' : Encodable step') (h : keySegment step = keySegment step') : step = step' := by
  have heq : ∀ field : EvtxGroupField, unit '=' ∉ field.name := by
    intro field
    cases field
    all_goals decide
  obtain ⟨hname, hvalue⟩ := append_cons_inj (heq step.1) (heq step'.1) h
  obtain ⟨encoded, hs⟩ := Option.isSome_iff_exists.mp henc
  obtain ⟨encoded', hs'⟩ := Option.isSome_iff_exists.mp henc'
  rw [hs, hs', Option.getD_some, Option.getD_some] at hvalue
  refine Prod.ext ?_ (encodeURIComponent_inj hs (hvalue ▸ hs'))
  generalize step.1 = f at hname
  generalize step'.1 = f' at hname
  revert hname
  cases f
  all_goals
    cases f'
    all_goals decide

section Steps

variable {p q : List (EvtxGroupField × JsString)}

theorem keyOfSteps_append (p q : List (EvtxGroupField × JsString)) :
    keyOfSteps (p ++ q) = keyOfSteps p ++ keyOfSteps q := List.flatMap_append

theorem keyOfSteps_concat (p : List (EvtxGroupField × JsString))
    (step : EvtxGroupField × JsString) :
    keyOfSteps (p ++ [step]) = keyOfSteps p ++ unit '/' :: keySegment step := by
  rw [keyOfSteps_append]
  exact congrArg (keyOfSteps p ++ ·) (List.append_nil _)

theorem keyOfSteps_slash (p : List (EvtxGroupField × JsString)) :
    keyOfSteps p ++ [unit '/'] =
      unit '/' :: p.flatMap fun step => keySegment step ++ [unit '/'] := by
  induction p with
  | nil => rfl
  | cons step p ih =>
    show (unit '/' :: keySegment step ++ keyOfSteps p) ++ [unit '/'] = _
    rw [List.append_assoc, ih, List.flatMap_cons, List.append_assoc]
    rfl

theorem prefix_of_flatMap (hp : ∀ step ∈ p, Encodable step) (hq : ∀ step ∈ q, Encodable step)
    (h : (p.flatMap fun step => keySegment step ++ [unit '/']) <+:
      q.flatMap fun step => keySegment step ++ [unit '/']) : p <+: q := by
  induction p generalizing q with
  | nil => exact List.nil_prefix
  | cons step p ih =>
    obtain ⟨rest, hrest⟩ := h
    cases q with
    | nil =>
      have hlen := congrArg List.length hrest
      rw [List.flatMap_cons, List.length_append, List.length_append, List.length_append] at hlen
      simp at hlen
    | cons step' q =>
      simp only [List.flatMap_cons, List.append_assoc, List.singleton_append] at hrest
      obtain ⟨hseg, htail⟩ := append_cons_inj (slash_not_mem_keySegment step)
        (slash_not_mem_keySegment step') hrest
      rw [keySegment_inj (hp step List.mem_cons_self) (hq step' List.mem_cons_self) hseg]
      exact (List.prefix_cons_inj step').mpr (ih (fun s hs => hp s (List.mem_cons_of_mem _ hs))
        (fun s hs => hq s (List.mem_cons_of_mem _ hs)) ⟨rest, htail⟩)

theorem prefix_of_keyOfSteps (hp : ∀ step ∈ p, Encodable step) (hq : ∀ step ∈ q, Encodable step)
    (h : keyOfSteps p ++ [unit '/'] <+: keyOfSteps q ++ [unit '/']) : p <+: q := by
  rw [keyOfSteps_slash, keyOfSteps_slash, List.prefix_cons_inj] at h
  exact prefix_of_flatMap hp hq h

theorem keyOfSteps_inj (hp : ∀ step ∈ p, Encodable step) (hq : ∀ step ∈ q, Encodable step)
    (h : keyOfSteps p = keyOfSteps q) : p = q := by
  have hpq := prefix_of_keyOfSteps hp hq (h ▸ List.prefix_refl _)
  have hqp := prefix_of_keyOfSteps hq hp (h ▸ List.prefix_refl _)
  exact hpq.eq_of_length_le hqp.length_le

theorem keyOfSteps_prefix (hp : ∀ step ∈ p, Encodable step) (hq : ∀ step ∈ q, Encodable step) :
    keyOfSteps p ++ [unit '/'] <+: keyOfSteps q ↔ p <+: q ∧ p ≠ q := by
  refine ⟨fun h => ⟨prefix_of_keyOfSteps hp hq (h.trans (List.prefix_append _ _)), ?_⟩, ?_⟩
  · rintro rfl
    have hlen := h.length_le
    rw [List.length_append, List.length_singleton] at hlen
    omega
  · rintro ⟨⟨rest, rfl⟩, hne⟩
    cases rest with
    | nil => exact absurd (List.append_nil p).symm hne
    | cons step rest =>
      rw [keyOfSteps_append]
      exact ⟨keySegment step ++ keyOfSteps rest, by rw [List.append_assoc]; rfl⟩

end Steps

/-! ## The rows as a tree -/

section Tree

variable (calendar : Calendar) (timeZone : EvtxTimeZoneMode) (collapsedKeys : List JsString)

def levelsOf (fields : List EvtxGroupField) :
    List (ListedRecord → EvtxGroupField × JsString) :=
  fields.map fun field record => (field, groupValue calendar timeZone field record)

def isCollapsed (steps : List (EvtxGroupField × JsString)) : Bool :=
  decide (keyOfSteps steps ∈ collapsedKeys)

def shown : TreeRow (EvtxGroupField × JsString) ListedRecord → EvtxRow
  | .header path count folded =>
    let last := path.getLastD (.level, [])
    .group (keyOfSteps path) last.1 last.2 (path.length - 1) count folded
  | .item path r => .record r path.length

/-- Every value that the records are grouped by can be escaped. -/
def AllEncodable (fields : List EvtxGroupField) (records : List ListedRecord) : Prop :=
  ∀ r ∈ records, ∀ field ∈ fields, Encodable (field, groupValue calendar timeZone field r)

variable {calendar timeZone collapsedKeys}

theorem shown_header (path : List (EvtxGroupField × JsString)) (field : EvtxGroupField)
    (value : JsString) (count : Nat) (folded : Bool) :
    shown (.header (path ++ [(field, value)]) count folded) =
      .group (keyOfSteps path ++ unit '/' :: keySegment (field, value)) field value path.length
        count folded := by
  rw [shown, keyOfSteps_concat, List.getLastD_concat, List.length_append, List.length_singleton,
    Nat.add_sub_cancel]

theorem mapM_some {A B : Type} {f : A → Option B} {g : A → B} {xs : List A}
    (h : ∀ x ∈ xs, f x = some (g x)) : xs.mapM f = some (xs.map g) := by
  induction xs with
  | nil => rfl
  | cons x xs ih =>
    rw [List.mapM_cons, h x List.mem_cons_self, ih fun y hy => h y (List.mem_cons_of_mem x hy)]
    rfl

theorem walk_eq {fields : List EvtxGroupField} (path : List (EvtxGroupField × JsString))
    {records : List ListedRecord} (henc : AllEncodable calendar timeZone fields records) :
    walk calendar timeZone collapsedKeys fields path.length (keyOfSteps path) records =
      some ((treeRows (isCollapsed collapsedKeys) (levelsOf calendar timeZone fields) path
        records).map shown) := by
  induction fields generalizing path records with
  | nil =>
    rw [walk, levelsOf, List.map_nil, treeRows, List.map_map]
    rfl
  | cons field fields ih =>
    have hinj : Function.Injective (Prod.mk field : JsString → EvtxGroupField × JsString) :=
      Prod.mk_right_injective field
    have hgroups := groupBy_map_key hinj (groupValue calendar timeZone field) records
    have hbucket : ∀ bucket ∈ Collections.groupBy (groupValue calendar timeZone field) records,
        (do
          let encoded ← encodeURIComponent bucket.1
          let key := keyOfSteps path ++ unit '/' :: (field.name ++ unit '=' :: encoded)
          let collapsed := decide (key ∈ collapsedKeys)
          let below ← if collapsed then some [] else
            walk calendar timeZone collapsedKeys fields (path.length + 1) key bucket.2
          some (EvtxRow.group key field bucket.1 path.length bucket.2.length collapsed ::
            below)) =
        some ((TreeRow.header (path ++ [(field, bucket.1)]) bucket.2.length
          (isCollapsed collapsedKeys (path ++ [(field, bucket.1)])) ::
          if isCollapsed collapsedKeys (path ++ [(field, bucket.1)]) then []
          else treeRows (isCollapsed collapsedKeys) (levelsOf calendar timeZone fields)
            (path ++ [(field, bucket.1)]) bucket.2).map shown) := by
      intro bucket hbucket
      have hsub : ∀ r ∈ bucket.2, r ∈ records ∧ groupValue calendar timeZone field r = bucket.1 :=
        fun r hr => ⟨(List.mem_filter.mp (mem_groupBy hbucket ▸ hr)).1,
          key_of_mem_groupBy hbucket hr⟩
      obtain ⟨r, hr⟩ := List.exists_mem_of_ne_nil bucket.2
        (((groupBy_spec _ records).mem bucket.1 bucket.2).mp hbucket).2
      have hvalue := henc r (hsub r hr).1 field List.mem_cons_self
      rw [(hsub r hr).2] at hvalue
      obtain ⟨encoded, hencoded⟩ := Option.isSome_iff_exists.mp hvalue
      have hsegment : field.name ++ unit '=' :: encoded = keySegment (field, bucket.1) := by
        rw [keySegment, hencoded, Option.getD_some]
      have hlen : path.length + 1 = (path ++ [(field, bucket.1)]).length := by
        rw [List.length_append, List.length_singleton]
      have hbelow := ih (path ++ [(field, bucket.1)]) fun r hr f hf =>
        henc r (hsub r hr).1 f (List.mem_cons_of_mem _ hf)
      rw [hencoded, List.map_cons, shown_header]
      simp only [hsegment, ← keyOfSteps_concat, Option.bind_eq_bind, Option.bind_some]
      rw [hlen, hbelow]
      cases hfolded : isCollapsed collapsedKeys (path ++ [(field, bucket.1)]) with
      | true =>
        rw [isCollapsed] at hfolded
        simp [hfolded]
      | false =>
        rw [isCollapsed] at hfolded
        simp [hfolded]
    rw [walk]
    show (List.mapM _ _ >>= _) = _
    have hlevels : levelsOf calendar timeZone (field :: fields) =
        (fun record => (field, groupValue calendar timeZone field record)) ::
          levelsOf calendar timeZone fields := rfl
    rw [mapM_some hbucket, hlevels, treeRows, hgroups]
    simp only [List.flatMap_map, List.map_flatMap, Option.bind_eq_bind, Option.bind_some]
    rfl

/-! ## What the keys say of a record -/

theorem encodable_of_prefixed {fields : List EvtxGroupField} {r : ListedRecord}
    {q : List (EvtxGroupField × JsString)}
    (henc : ∀ field ∈ fields, Encodable (field, groupValue calendar timeZone field r))
    (hq : q <+: pathOf (levelsOf calendar timeZone fields) r) : ∀ step ∈ q, Encodable step := by
  intro step hstep
  have hmem := hq.subset hstep
  rw [pathOf, levelsOf, List.map_map] at hmem
  obtain ⟨field, hfield, rfl⟩ := List.mem_map.mp hmem
  exact henc field hfield

theorem mem_ancestorKeys {fields : List EvtxGroupField} (path : List (EvtxGroupField × JsString))
    {r : ListedRecord} {key : JsString} :
    key ∈ ancestorKeys calendar timeZone fields (keyOfSteps path) r ↔
      ∃ q, q ≠ [] ∧ q <+: pathOf (levelsOf calendar timeZone fields) r ∧
        key = keyOfSteps (path ++ q) := by
  induction fields generalizing path with
  | nil =>
    refine ⟨fun h => absurd h List.not_mem_nil, ?_⟩
    rintro ⟨q, hne, hpre, -⟩
    exact absurd (List.prefix_nil.mp hpre) hne
  | cons field fields ih =>
    have hpath : pathOf (levelsOf calendar timeZone (field :: fields)) r =
        (field, groupValue calendar timeZone field r) ::
          pathOf (levelsOf calendar timeZone fields) r := rfl
    rw [ancestorKeys, ← keyOfSteps_concat, List.mem_cons, ih, hpath]
    constructor
    · rintro (rfl | ⟨q, hne, hpre, rfl⟩)
      · exact ⟨[_], List.cons_ne_nil _ _, ⟨_, rfl⟩, rfl⟩
      · refine ⟨_ :: q, List.cons_ne_nil _ _, (List.prefix_cons_inj _).mpr hpre, ?_⟩
        rw [List.append_assoc]
        rfl
    · rintro ⟨q, hne, hpre, rfl⟩
      cases q with
      | nil => exact absurd rfl hne
      | cons step q =>
        obtain ⟨rfl, hrest⟩ := List.cons_prefix_cons.mp hpre
        cases q with
        | nil => exact .inl rfl
        | cons step' q =>
          refine .inr ⟨step' :: q, List.cons_ne_nil _ _, hrest, ?_⟩
          rw [List.append_assoc]
          rfl

theorem unfolded_iff {fields : List EvtxGroupField} (path : List (EvtxGroupField × JsString))
    {r : ListedRecord} :
    unfolded (isCollapsed collapsedKeys) (levelsOf calendar timeZone fields) path r = true ↔
      ∀ key ∈ ancestorKeys calendar timeZone fields (keyOfSteps path) r, key ∉ collapsedKeys := by
  induction fields generalizing path with
  | nil => exact ⟨fun _ key hkey => absurd hkey List.not_mem_nil, fun _ => rfl⟩
  | cons field fields ih =>
    show (!isCollapsed collapsedKeys (path ++ [(field, groupValue calendar timeZone field r)]) &&
      unfolded (isCollapsed collapsedKeys) (levelsOf calendar timeZone fields)
        (path ++ [(field, groupValue calendar timeZone field r)]) r) = true ↔ _
    rw [ancestorKeys, ← keyOfSteps_concat, Bool.and_eq_true, ih, List.forall_mem_cons, isCollapsed,
      Bool.not_eq_true', decide_eq_false_iff_not]

theorem prefix_pathOf_iff {fields : List EvtxGroupField} {r : ListedRecord}
    {q : List (EvtxGroupField × JsString)} (hne : q ≠ []) (hq : ∀ step ∈ q, Encodable step)
    (henc : ∀ field ∈ fields, Encodable (field, groupValue calendar timeZone field r)) :
    q <+: pathOf (levelsOf calendar timeZone fields) r ↔
      keyOfSteps q ∈ ancestorKeys calendar timeZone fields [] r := by
  refine Iff.trans ⟨fun hpre => ⟨q, hne, hpre, rfl⟩, ?_⟩ (mem_ancestorKeys []).symm
  rintro ⟨q', -, hpre, heq⟩
  rw [keyOfSteps_inj hq (encodable_of_prefixed henc hpre) heq]
  exact hpre

end Tree

/-! ## The grouped rows -/

section Grouped

variable {calendar : Calendar} {timeZone : EvtxTimeZoneMode} {collapsedKeys : List JsString}
  {records : List ListedRecord} {groupBy : List EvtxGroupField}

def treeOf (calendar : Calendar) (timeZone : EvtxTimeZoneMode) (collapsedKeys : List JsString)
    (groupBy : List EvtxGroupField) (records : List ListedRecord) :
    List (TreeRow (EvtxGroupField × JsString) ListedRecord) :=
  treeRows (isCollapsed collapsedKeys) (levelsOf calendar timeZone groupBy) [] records

theorem buildGroupedRows_eq (henc : AllEncodable calendar timeZone groupBy records) :
    buildGroupedRows calendar timeZone collapsedKeys records groupBy =
      some ((treeOf calendar timeZone collapsedKeys groupBy records).map shown) := by
  rw [treeOf, ← walk_eq [] henc, buildGroupedRows]
  split_ifs with hempty
  · rw [hempty]
    rfl
  · rfl

theorem records_shown (rows : List (TreeRow (EvtxGroupField × JsString) ListedRecord)) :
    (rows.map shown).filterMap EvtxRow.record? = rows.filterMap TreeRow.item? := by
  rw [List.filterMap_map]
  refine List.filterMap_congr fun row _ => ?_
  cases row with
  | header path count folded => rfl
  | item path r => rfl

theorem keys_shown (rows : List (TreeRow (EvtxGroupField × JsString) ListedRecord)) :
    (rows.map shown).filterMap EvtxRow.key? = (rows.filterMap TreeRow.header?).map keyOfSteps := by
  rw [List.filterMap_map, List.map_filterMap]
  refine List.filterMap_congr fun row _ => ?_
  cases row with
  | header path count folded => rfl
  | item path r => rfl

theorem pathOf_levelsOf (r : ListedRecord) : pathOf (levelsOf calendar timeZone groupBy) r =
    groupBy.map fun field => (field, groupValue calendar timeZone field r) := List.map_map

theorem pathOf_eq_iff (r : ListedRecord) (values : List JsString)
    (hlen : values.length = groupBy.length) :
    pathOf (levelsOf calendar timeZone groupBy) r = groupBy.zip values ↔
      (groupBy.map fun field => groupValue calendar timeZone field r) = values := by
  rw [pathOf_levelsOf]
  induction groupBy generalizing values with
  | nil =>
    obtain rfl := List.length_eq_zero_iff.mp hlen
    exact ⟨fun _ => rfl, fun _ => rfl⟩
  | cons field fields ih =>
    cases values with
    | nil => cases hlen
    | cons value values =>
      rw [List.map_cons, List.map_cons, List.zip_cons_cons, List.cons.injEq, List.cons.injEq,
        ih values (Nat.succ.inj hlen), Prod.mk.injEq]
      exact and_congr_left fun _ => and_iff_right rfl

def isShown (calendar : Calendar) (timeZone : EvtxTimeZoneMode) (collapsedKeys : List JsString)
    (groupBy : List EvtxGroupField) (r : ListedRecord) : Bool :=
  decide (∀ key ∈ ancestorKeys calendar timeZone groupBy [] r, key ∉ collapsedKeys)

def EvtxRow.beneath (calendar : Calendar) (timeZone : EvtxTimeZoneMode)
    (groupBy : List EvtxGroupField) (key : JsString) : EvtxRow → Bool
  | .group key' .. => (key ++ [unit '/']).isPrefixOf key'
  | .record r _ => decide (key ∈ ancestorKeys calendar timeZone groupBy [] r)

theorem items_of_values (values : List JsString) :
    ((treeOf calendar timeZone collapsedKeys groupBy records).filterMap TreeRow.item?).filter
        (fun r => (groupBy.map fun field => groupValue calendar timeZone field r) = values) =
      records.filter fun r => isShown calendar timeZone collapsedKeys groupBy r &&
        decide ((groupBy.map fun field => groupValue calendar timeZone field r) = values) := by
  by_cases hlen : values.length = groupBy.length
  · simp only [← pathOf_eq_iff _ values hlen]
    rw [treeOf, items_of_path]
    refine List.filter_congr fun r _ => ?_
    congr 1
    rw [isShown, Bool.eq_iff_iff, decide_eq_true_iff]
    exact unfolded_iff []
  · have hne : ∀ r : ListedRecord,
        ¬ (groupBy.map fun field => groupValue calendar timeZone field r) = values :=
      fun r h => hlen (by rw [← h, List.length_map])
    simp [hne]

theorem items_perm :
    ((treeOf calendar timeZone collapsedKeys groupBy records).filterMap TreeRow.item?).Perm
      (records.filter (isShown calendar timeZone collapsedKeys groupBy)) := by
  refine perm_of_groups (fun r => groupBy.map fun field => groupValue calendar timeZone field r)
    fun values => ?_
  rw [items_of_values, List.filter_filter]
  exact List.filter_congr fun r _ => Bool.and_comm _ _

theorem encodable_of_header (henc : AllEncodable calendar timeZone groupBy records)
    {path : List (EvtxGroupField × JsString)} {count : Nat} {folded : Bool}
    (h : .header path count folded ∈ treeOf calendar timeZone collapsedKeys groupBy records) :
    ∀ step ∈ path, Encodable step := by
  obtain ⟨r, hr, q, rfl, hq⟩ := exists_of_header h
  exact encodable_of_prefixed (henc r hr) hq

theorem count_of_header (henc : AllEncodable calendar timeZone groupBy records)
    {path : List (EvtxGroupField × JsString)} {count : Nat} {folded : Bool}
    (h : .header path count folded ∈ treeOf calendar timeZone collapsedKeys groupBy records) :
    count = (records.filter fun r =>
        decide (keyOfSteps path ∈ ancestorKeys calendar timeZone groupBy [] r)).length ∧
      folded = decide (keyOfSteps path ∈ collapsedKeys) := by
  have hsteps := encodable_of_header henc h
  obtain ⟨q, rfl, hne, hfolded, rfl⟩ := header_mem h
  refine ⟨congrArg List.length (List.filter_congr fun r hr => ?_), hfolded⟩
  rw [decide_eq_decide]
  exact prefix_pathOf_iff hne hsteps (henc r hr)

theorem nodup_keys (henc : AllEncodable calendar timeZone groupBy records) :
    (((treeOf calendar timeZone collapsedKeys groupBy records).filterMap
      TreeRow.header?).map keyOfSteps).Nodup := by
  have hencodable : ∀ path ∈ (treeOf calendar timeZone collapsedKeys groupBy records).filterMap
      TreeRow.header?, ∀ step ∈ path, Encodable step := by
    intro path hpath
    obtain ⟨row, hrow, heq⟩ := List.mem_filterMap.mp hpath
    cases row with
    | header path' count folded =>
      obtain rfl := Option.some.inj heq
      exact encodable_of_header henc hrow
    | item path' r => cases heq
  exact nodup_headers.map_on fun p hp q hq => keyOfSteps_inj (hencodable p hp) (hencodable q hq)

theorem beneath_shown (henc : AllEncodable calendar timeZone groupBy records)
    {q : List (EvtxGroupField × JsString)} (hne : q ≠ []) (hq : ∀ step ∈ q, Encodable step)
    {row : TreeRow (EvtxGroupField × JsString) ListedRecord}
    (hrow : row ∈ treeOf calendar timeZone collapsedKeys groupBy records) :
    (shown row).beneath calendar timeZone groupBy (keyOfSteps q) = row.below q := by
  rw [Bool.eq_iff_iff]
  cases row with
  | header path count folded =>
    rw [TreeRow.below_header, ← keyOfSteps_prefix hq (encodable_of_header henc hrow)]
    exact List.isPrefixOf_iff_prefix
  | item path r =>
    obtain ⟨rfl, hr⟩ := path_of_item hrow
    rw [TreeRow.below_item, List.nil_append, prefix_pathOf_iff hne hq (henc r hr)]
    exact decide_eq_true_iff

theorem collapse_shown (henc : AllEncodable calendar timeZone groupBy records)
    {q : List (EvtxGroupField × JsString)} (hq : ∀ step ∈ q, Encodable step)
    {row : TreeRow (EvtxGroupField × JsString) ListedRecord}
    (hrow : row ∈ treeOf calendar timeZone collapsedKeys groupBy records) :
    (shown row).collapse (keyOfSteps q) = shown (row.fold q) := by
  cases row with
  | header path count folded =>
    have hkey : decide (keyOfSteps path = keyOfSteps q) = decide (path = q) :=
      decide_eq_decide.mpr
        ⟨keyOfSteps_inj (encodable_of_header henc hrow) hq, congrArg keyOfSteps⟩
    show EvtxRow.group _ _ _ _ _ (folded || decide (keyOfSteps path = keyOfSteps q)) = _
    rw [hkey]
    rfl
  | item path r => rfl

theorem treeOf_collapse (henc : AllEncodable calendar timeZone groupBy records)
    {q : List (EvtxGroupField × JsString)} (hne : q ≠ []) (hq : ∀ step ∈ q, Encodable step) :
    (treeOf calendar timeZone (keyOfSteps q :: collapsedKeys) groupBy records).map shown =
      (((treeOf calendar timeZone collapsedKeys groupBy records).map shown).filter fun row =>
        !row.beneath calendar timeZone groupBy (keyOfSteps q)).map
          (EvtxRow.collapse (keyOfSteps q)) := by
  have hfold : treeOf calendar timeZone (keyOfSteps q :: collapsedKeys) groupBy records =
      treeRows (fun p => isCollapsed collapsedKeys p || decide (p = q))
        (levelsOf calendar timeZone groupBy) [] records := by
    refine treeRows_congr fun r hr p hp => ?_
    have hp' := encodable_of_prefixed (henc r hr) hp
    have hkey : keyOfSteps p = keyOfSteps q ↔ p = q :=
      ⟨keyOfSteps_inj hp' hq, congrArg keyOfSteps⟩
    rw [List.nil_append, isCollapsed, isCollapsed, Bool.eq_iff_iff, decide_eq_true_iff,
      Bool.or_eq_true, decide_eq_true_iff, decide_eq_true_iff, List.mem_cons, hkey, or_comm]
  rw [hfold, treeRows_fold q (fun hpre => hne (List.prefix_nil.mp hpre)), List.filter_map,
    List.map_map, List.map_map]
  have hfilter := List.filter_congr fun row
      (hrow : row ∈ treeOf calendar timeZone collapsedKeys groupBy records) =>
    congrArg (!·) (beneath_shown henc hne hq hrow)
  rw [show (fun row : EvtxRow => !row.beneath calendar timeZone groupBy (keyOfSteps q)) ∘ shown =
    fun row => !(shown row).beneath calendar timeZone groupBy (keyOfSteps q) from rfl, hfilter]
  refine List.map_congr_left fun row hrow => ?_
  exact (collapse_shown henc hq (List.mem_filter.mp hrow).1).symm

/-- The grouped rows show every record that no collapsed group hides, once and in
its order, count what is in a group, and lose by one collapse only what is under
its header. -/
theorem buildGroupedRows_lossless (calendar : Calendar) (timeZone : EvtxTimeZoneMode)
    (collapsedKeys : List JsString) (records : List ListedRecord)
    (groupBy : List EvtxGroupField) (henc : AllEncodable calendar timeZone groupBy records) :
    ∃ rows, buildGroupedRows calendar timeZone collapsedKeys records groupBy = some rows ∧
      (rows.filterMap EvtxRow.record?).Perm
        (records.filter (isShown calendar timeZone collapsedKeys groupBy)) ∧
      (∀ values : List JsString,
        (rows.filterMap EvtxRow.record?).filter (fun r =>
            (groupBy.map fun field => groupValue calendar timeZone field r) = values) =
          records.filter fun r => isShown calendar timeZone collapsedKeys groupBy r &&
            decide ((groupBy.map fun field => groupValue calendar timeZone field r) = values)) ∧
      (∀ key field label depth count collapsed,
        .group key field label depth count collapsed ∈ rows →
          count = (records.filter fun r =>
            decide (key ∈ ancestorKeys calendar timeZone groupBy [] r)).length ∧
          collapsed = decide (key ∈ collapsedKeys)) ∧
      (rows.filterMap EvtxRow.key?).Nodup ∧
      ∀ key, (∃ r ∈ records, key ∈ ancestorKeys calendar timeZone groupBy [] r) →
        buildGroupedRows calendar timeZone (key :: collapsedKeys) records groupBy =
          some ((rows.filter fun row => !row.beneath calendar timeZone groupBy key).map
            (EvtxRow.collapse key)) := by
  refine ⟨_, buildGroupedRows_eq henc, ?_, ?_, ?_, ?_, ?_⟩
  · rw [records_shown]
    exact items_perm
  · rw [records_shown]
    exact items_of_values
  · intro key field label depth count collapsed hrow
    obtain ⟨row, hmem, heq⟩ := List.mem_map.mp hrow
    cases row with
    | header path count' folded =>
      obtain ⟨rfl, -, -, -, rfl, rfl⟩ := EvtxRow.group.inj heq
      exact count_of_header henc hmem
    | item path r => cases heq
  · rw [keys_shown]
    exact nodup_keys henc
  · rintro key ⟨r, hr, hkey⟩
    obtain ⟨q, hne, hpre, rfl⟩ := (mem_ancestorKeys []).mp hkey
    rw [buildGroupedRows_eq henc]
    exact congrArg some (treeOf_collapse henc hne (encodable_of_prefixed (henc r hr) hpre))

def sampleRecords : List ListedRecord :=
  [⟨⟨js "System", .error, 7, 0⟩, js "a/b"⟩, ⟨⟨js "System", .warning, 7, 0⟩, []⟩,
    ⟨⟨js "System", .error, 7, 0⟩, js "a/b"⟩]

theorem buildGroupedRows_lossless_sample :
    ∃ rows, buildGroupedRows (fun _ _ => none) .utc [js "/level=Warning"] sampleRecords
        [.level, .provider] = some rows ∧
      (rows.filterMap EvtxRow.record?).Perm
        (sampleRecords.filter (isShown (fun _ _ => none) .utc [js "/level=Warning"]
          [.level, .provider])) ∧
      (rows.filterMap EvtxRow.key?).Nodup := by
  have henc : AllEncodable (fun _ _ => none) .utc [.level, .provider] sampleRecords := by
    unfold AllEncodable Encodable
    decide +kernel
  obtain ⟨rows, hrows, hperm, -, -, hnodup, -⟩ := buildGroupedRows_lossless (fun _ _ => none) .utc
    [js "/level=Warning"] sampleRecords [.level, .provider] henc
  exact ⟨rows, hrows, hperm, hnodup⟩

end Grouped

end EventLog
end CmTrace
