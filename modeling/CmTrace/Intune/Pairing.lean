import CmTrace.Collections.LastMatch
import CmTrace.Text.Basic

/-!
# Starts and ends of operations

A row that reports an outcome ends the most recent open row of its operation: the
start takes its time, status and error code, and the outcome row goes.  The scan
writes into earlier rows by their index and removes the ends afterwards; it gives
what one pass with a stack of open rows for each operation gives.
-/

namespace CmTrace
namespace Intune

open Text Collections

inductive IntuneEventType where
  | win32App
  | winGetApp
  | powerShellScript
  | remediation
  | esp
  | syncSession
  | policyEvaluation
  | contentDownload
  | other
  deriving DecidableEq, Repr

inductive IntuneStatus where
  | success
  | failed
  | inProgress
  | pending
  | timeout
  | unknown
  deriving DecidableEq, Repr

/-- An event; `D` are the durations in seconds. -/
structure IntuneEvent (D : Type) where
  id : Nat
  eventType : IntuneEventType
  name : Text
  guid : Option Text
  status : IntuneStatus
  startTime : Option Text
  endTime : Option Text
  durationSecs : Option D
  errorCode : Option Text
  detail : Text
  sourceFile : Text
  lineNumber : Nat
  startTimeEpoch : Option Int
  endTimeEpoch : Option Int
  scriptBody : Option Text
  parentAppGuid : Option Text
  deriving DecidableEq

namespace IntuneStatus

def isTerminal : IntuneStatus → Bool
  | success | failed | timeout => true
  | inProgress | pending | unknown => false

end IntuneStatus

/-! ## Identity -/

def eventTypeIdentity : IntuneEventType → String
  | .win32App => "win32"
  | .winGetApp => "winget"
  | .powerShellScript => "script"
  | .remediation => "remediation"
  | .esp => "esp"
  | .syncSession => "sync"
  | .policyEvaluation => "policy"
  | .contentDownload => "download"
  | .other => "other"

def normalizeIdentityFragment (value : Text) : Text :=
  let spaced := value.map fun ch => if isAsciiAlphanumeric ch then ch.toLower else ' '
  join [' '] ((splitWhitespace spaced).take 6)

variable {D : Type}

/-- What an operation is known by: its GUID or else its name. -/
def IntuneEvent.fragment (event : IntuneEvent D) : Option Text :=
  match event.guid with
  | some guid => some guid
  | none =>
    let normalizedName := normalizeIdentityFragment event.name
    if normalizedName = [] then none else some normalizedName

def flatKey (sourceFile : Text) (eventType : IntuneEventType) (fragment : Text) : Text :=
  sourceFile ++ '|' :: ((eventTypeIdentity eventType).toList ++ '|' :: fragment)

def eventIdentityKey (event : IntuneEvent D) : Option Text :=
  event.fragment.map (flatKey event.sourceFile event.eventType)

/-! ## Pairing -/

def closed (estimateDuration : Text → Text → Option D) (start row : IntuneEvent D) :
    IntuneEvent D :=
  { start with
    endTime      := row.startTime
    status       := row.status
    errorCode    := row.errorCode.or start.errorCode
    durationSecs :=
      match start.startTime, row.startTime with
      | some startTime, some endTime => estimateDuration startTime endTime
      | _, _ => start.durationSecs }

/-- The rows, the indices of the ends and the stacks of open rows. -/
structure PairState (D : Type) where
  events : List (IntuneEvent D)
  consumedEndIndices : List Nat := []
  openEvents : Text → List Nat := fun _ => []

/-- What the loop does with the row at `index`. -/
def pairStep (estimateDuration : Text → Text → Option D) (st : PairState D) (index : Nat) :
    PairState D :=
  match st.events[index]? with
  | none => st
  | some event =>
    match eventIdentityKey event with
    | none => st
    | some identityKey =>
      if event.status = .inProgress then
        { st with openEvents :=
            Function.update st.openEvents identityKey (index :: st.openEvents identityKey) }
      else if !event.status.isTerminal then st
      else match st.openEvents identityKey with
        | [] => st
        | startIndex :: rest =>
          let st := { st with openEvents := Function.update st.openEvents identityKey rest }
          if st.consumedEndIndices.contains index then st
          else
            { st with
              events := st.events.modify startIndex fun start => closed estimateDuration start event
              consumedEndIndices := index :: st.consumedEndIndices }

def retainFrom (consumed : List Nat) : Nat → List (IntuneEvent D) → List (IntuneEvent D)
  | _, [] => []
  | index, event :: rest =>
    if consumed.contains index then retainFrom consumed (index + 1) rest
    else event :: retainFrom consumed (index + 1) rest

def pairEvents (estimateDuration : Text → Text → Option D) (events : List (IntuneEvent D)) :
    List (IntuneEvent D) :=
  let st := (List.range events.length).foldl (pairStep estimateDuration) { events := events }
  if st.consumedEndIndices = [] then st.events else retainFrom st.consumedEndIndices 0 st.events

/-! ## Reference -/

/-- A row that is kept, with the row that ended it. -/
structure Slot (D : Type) where
  row : IntuneEvent D
  closing : Option (IntuneEvent D) := none

variable {K : Type} [DecidableEq K]

def Slot.isOpen (identity : IntuneEvent D → Option K) (k : K) (slot : Slot D) : Bool :=
  decide (slot.row.status = .inProgress ∧ identity slot.row = some k) && slot.closing.isNone

def Slot.close (row : IntuneEvent D) (slot : Slot D) : Slot D := { slot with closing := some row }

def Slot.out (estimateDuration : Text → Text → Option D) (slot : Slot D) : IntuneEvent D :=
  match slot.closing with
  | some row => closed estimateDuration slot.row row
  | none => slot.row

/-- An outcome ends the most recent open row of its operation; every other row is
kept. -/
def pairRow (identity : IntuneEvent D → Option K) (slots : List (Slot D)) (row : IntuneEvent D) :
    List (Slot D) :=
  let ended :=
    if row.status.isTerminal then
      (identity row).bind fun k => changeLast (Slot.isOpen identity k) (Slot.close row) slots
    else none
  ended.getD (slots ++ [{ row := row }])

def scanPairs (identity : IntuneEvent D → Option K) (events : List (IntuneEvent D)) :
    List (Slot D) :=
  events.foldl (pairRow identity) []

/-- What the ends are to the starts. -/
structure Matching (identity : IntuneEvent D → Option K) (events : List (IntuneEvent D))
    (slots : List (Slot D)) : Prop where
  /-- The rows that are kept are in their order. -/
  kept : (slots.map Slot.row).Sublist events
  /-- Every row is kept or ends one start. -/
  accounted : (slots.map Slot.row ++ slots.filterMap Slot.closing).Perm events
  /-- A start is ended by a later outcome of its own operation. -/
  closes : ∀ slot ∈ slots, ∀ row, slot.closing = some row →
    slot.row.status = .inProgress ∧ row.status.isTerminal = true ∧
      (∃ k, identity slot.row = some k ∧ identity row = some k) ∧ [slot.row, row].Sublist events

/-! ## What the reference does -/

theorem scanPairs_snoc (identity : IntuneEvent D → Option K) (events : List (IntuneEvent D))
    (row : IntuneEvent D) :
    scanPairs identity (events ++ [row]) = pairRow identity (scanPairs identity events) row := by
  rw [scanPairs, List.foldl_append]
  rfl

/-- No open start of the operation of an outcome. -/
def Unstarted (identity : IntuneEvent D → Option K) (slots : List (Slot D)) (row : IntuneEvent D) :
    Prop :=
  row.status.isTerminal = true → ∀ k, identity row = some k →
    ∀ slot ∈ slots, slot.isOpen identity k = false

theorem pairRow_kept {identity : IntuneEvent D → Option K} {slots : List (Slot D)}
    {row : IntuneEvent D} (h : Unstarted identity slots row) :
    pairRow identity slots row = slots ++ [{ row := row }] := by
  rw [pairRow]
  cases hterminal : row.status.isTerminal with
  | false => rfl
  | true =>
    cases hk : identity row with
    | none => rfl
    | some k =>
      simp only [if_true, Option.bind_some, changeLast_none (h hterminal k hk), Option.getD_none]

theorem pairRow_ended {identity : IntuneEvent D → Option K} {slots pre post : List (Slot D)}
    {row : IntuneEvent D} {k : K} {slot : Slot D} (hterminal : row.status.isTerminal = true)
    (hk : identity row = some k) (hlast : LastAt (Slot.isOpen identity k) slots pre slot post) :
    pairRow identity slots row = pre ++ slot.close row :: post := by
  rw [pairRow]
  simp only [hterminal, if_true, hk, Option.bind_some, hlast.changeLast, Option.getD_some]

theorem pairRow_cases (identity : IntuneEvent D → Option K) (slots : List (Slot D))
    (row : IntuneEvent D) :
    Unstarted identity slots row ∨
      ∃ k pre slot post, row.status.isTerminal = true ∧ identity row = some k ∧
        LastAt (Slot.isOpen identity k) slots pre slot post := by
  cases hterminal : row.status.isTerminal with
  | false =>
    left
    intro h
    rw [hterminal] at h
    cases h
  | true =>
    cases hk : identity row with
    | none =>
      left
      intro _ k hk'
      rw [hk] at hk'
      cases hk'
    | some k =>
      obtain ⟨pre, slot, post, hlast, _⟩ | ⟨hnone, _⟩ :=
        changeLast_cases (Slot.isOpen identity k) id slots
      · exact .inr ⟨k, pre, slot, post, rfl, rfl, hlast⟩
      · left
        intro _ k' hk'
        obtain rfl := Option.some.inj (hk.symm.trans hk')
        exact hnone

theorem isOpen_iff {identity : IntuneEvent D → Option K} {k : K} {slot : Slot D} :
    slot.isOpen identity k = true ↔
      slot.row.status = .inProgress ∧ identity slot.row = some k ∧ slot.closing = none := by
  rw [Slot.isOpen, Bool.and_eq_true, decide_eq_true_eq, Option.isNone_iff_eq_none, and_assoc]

omit [DecidableEq K] in
theorem Matching.keep {identity : IntuneEvent D → Option K} {events : List (IntuneEvent D)}
    {slots : List (Slot D)} (h : Matching identity events slots) (row : IntuneEvent D) :
    Matching identity (events ++ [row]) (slots ++ [{ row := row }]) := by
  refine ⟨?_, ?_, ?_⟩
  · rw [List.map_append]
    exact h.kept.append (List.Sublist.refl _)
  · have hclosing : (slots ++ [({ row := row } : Slot D)]).filterMap Slot.closing =
        slots.filterMap Slot.closing := by
      rw [List.filterMap_append]
      exact List.append_nil _
    rw [hclosing, List.map_append, List.append_assoc]
    refine List.Perm.trans ?_ (h.accounted.append_right [row])
    rw [List.append_assoc]
    exact List.perm_append_comm.append_left _
  · intro slot hslot end_ hclosing
    rcases List.mem_append.mp hslot with hslot | hslot
    · obtain ⟨hstart, hend, hsame, horder⟩ := h.closes slot hslot end_ hclosing
      exact ⟨hstart, hend, hsame, horder.trans (List.sublist_append_left _ _)⟩
    · rw [List.mem_singleton.mp hslot] at hclosing
      cases hclosing

theorem Matching.finish {identity : IntuneEvent D → Option K} {events : List (IntuneEvent D)}
    {slots pre post : List (Slot D)} {row : IntuneEvent D} {k : K} {slot : Slot D}
    (h : Matching identity events slots) (hterminal : row.status.isTerminal = true)
    (hk : identity row = some k) (hlast : LastAt (Slot.isOpen identity k) slots pre slot post) :
    Matching identity (events ++ [row]) (pre ++ slot.close row :: post) := by
  obtain ⟨hstart, hsame, hopen⟩ := isOpen_iff.mp hlast.has
  have hrows : (pre ++ slot.close row :: post).map Slot.row = slots.map Slot.row := by
    rw [hlast.eq, List.map_append, List.map_append]
    rfl
  have hslot : slot ∈ slots := by
    rw [hlast.eq]
    exact List.mem_append_right _ List.mem_cons_self
  have hfrom : slot.row ∈ events := h.kept.subset (List.mem_map_of_mem hslot)
  refine ⟨?_, ?_, ?_⟩
  · rw [hrows]
    exact h.kept.trans (List.sublist_append_left _ _)
  · have hclosing : (pre ++ slot.close row :: post).filterMap Slot.closing =
        pre.filterMap Slot.closing ++ row :: post.filterMap Slot.closing := by
      rw [List.filterMap_append, List.filterMap_cons_some (f := Slot.closing) (b := row) rfl]
    have hbefore : slots.filterMap Slot.closing =
        pre.filterMap Slot.closing ++ post.filterMap Slot.closing := by
      rw [hlast.eq, List.filterMap_append, List.filterMap_cons_none hopen]
    have haccounted := h.accounted
    rw [hbefore] at haccounted
    rw [hrows, hclosing]
    refine List.Perm.trans ?_ (haccounted.append_right [row])
    rw [List.append_assoc]
    refine List.Perm.append_left _ (List.perm_middle.trans ?_)
    exact (List.perm_append_singleton _ _).symm
  · intro other hother end_ hclosing
    have hold : other ∈ slots → [other.row, end_].Sublist (events ++ [row]) ∧
        other.row.status = .inProgress ∧ end_.status.isTerminal = true ∧
        ∃ k, identity other.row = some k ∧ identity end_ = some k := by
      intro hmem
      obtain ⟨hstart', hend', hsame', horder⟩ := h.closes other hmem end_ hclosing
      exact ⟨horder.trans (List.sublist_append_left _ _), hstart', hend', hsame'⟩
    rcases List.mem_append.mp hother with hpre | hpost
    · obtain ⟨horder, hfacts⟩ := hold (by rw [hlast.eq]; exact List.mem_append_left _ hpre)
      exact ⟨hfacts.1, hfacts.2.1, hfacts.2.2, horder⟩
    · rcases List.mem_cons.mp hpost with rfl | hpost
      · cases hclosing
        refine ⟨hstart, hterminal, ⟨k, hsame, hk⟩, ?_⟩
        exact (List.singleton_sublist.mpr hfrom).append (List.Sublist.refl [row])
      · obtain ⟨horder, hfacts⟩ := hold (by
          rw [hlast.eq]
          exact List.mem_append_right _ (List.mem_cons_of_mem _ hpost))
        exact ⟨hfacts.1, hfacts.2.1, hfacts.2.2, horder⟩

theorem scanPairs_matching (identity : IntuneEvent D → Option K) (events : List (IntuneEvent D)) :
    Matching identity events (scanPairs identity events) := by
  induction events using List.reverseRecOn with
  | nil =>
    exact ⟨List.Sublist.refl _, List.Perm.refl _, fun slot hslot => absurd hslot List.not_mem_nil⟩
  | append_singleton events row ih =>
    rw [scanPairs_snoc]
    obtain hkept | ⟨k, pre, slot, post, hterminal, hk, hlast⟩ :=
      pairRow_cases identity (scanPairs identity events) row
    · rw [pairRow_kept hkept]
      exact ih.keep row
    · rw [pairRow_ended hterminal hk hlast]
      exact ih.finish hterminal hk hlast

theorem scanPairs_congr {K' : Type} [DecidableEq K'] {identity : IntuneEvent D → Option K}
    {identity' : IntuneEvent D → Option K'} (events : List (IntuneEvent D))
    (h : ∀ a ∈ events, ∀ b ∈ events, (∃ k, identity a = some k ∧ identity b = some k) ↔
      ∃ k, identity' a = some k ∧ identity' b = some k) :
    scanPairs identity events = scanPairs identity' events := by
  induction events using List.reverseRecOn with
  | nil => rfl
  | append_singleton events row ih =>
    have hprev := ih fun a ha b hb =>
      h a (List.mem_append_left _ ha) b (List.mem_append_left _ hb)
    have hrows : ∀ slot ∈ scanPairs identity events, slot.row ∈ events := fun slot hslot =>
      (scanPairs_matching identity events).kept.subset (List.mem_map_of_mem hslot)
    have hopen : ∀ k k', identity row = some k → identity' row = some k' →
        ∀ slot ∈ scanPairs identity events,
          slot.isOpen identity k = slot.isOpen identity' k' := by
      intro k k' hk hk' slot hslot
      have hiff := h slot.row (List.mem_append_left _ (hrows slot hslot)) row
        (List.mem_append_right _ List.mem_cons_self)
      rw [hk, hk'] at hiff
      have hsame : identity slot.row = some k ↔ identity' slot.row = some k' := by
        constructor
        · intro heq
          obtain ⟨other, hother, hother'⟩ := hiff.mp ⟨k, heq, rfl⟩
          rwa [Option.some.inj hother']
        · intro heq
          obtain ⟨other, hother, hother'⟩ := hiff.mpr ⟨k', heq, rfl⟩
          rwa [Option.some.inj hother']
      rw [Bool.eq_iff_iff, isOpen_iff, isOpen_iff, hsame]
    have hself := h row (List.mem_append_right _ List.mem_cons_self) row
      (List.mem_append_right _ List.mem_cons_self)
    rw [scanPairs_snoc, scanPairs_snoc, ← hprev]
    obtain hkept | ⟨k, pre, slot, post, hterminal, hk, hlast⟩ :=
      pairRow_cases identity (scanPairs identity events) row
    · have hkept' : Unstarted identity' (scanPairs identity events) row := by
        intro hterminal k' hk' slot hslot
        obtain ⟨k, hk, _⟩ := hself.mpr ⟨k', hk', hk'⟩
        rw [← hopen k k' hk hk' slot hslot]
        exact hkept hterminal k hk slot hslot
      rw [pairRow_kept hkept, pairRow_kept hkept']
    · obtain ⟨k', hk', _⟩ := hself.mp ⟨k, hk, hk⟩
      have hmem : ∀ other ∈ pre ++ slot :: post, other ∈ scanPairs identity events := by
        rw [hlast.eq]
        exact fun _ hother => hother
      have hlast' :
          LastAt (Slot.isOpen identity' k') (scanPairs identity events) pre slot post := by
        refine ⟨hlast.eq, ?_, fun other hother => ?_⟩
        · rw [← hopen k k' hk hk' slot (hmem slot (List.mem_append_right _ List.mem_cons_self))]
          exact hlast.has
        · rw [← hopen k k' hk hk' other
            (hmem other (List.mem_append_right _ (List.mem_cons_of_mem _ hother)))]
          exact hlast.none_after other hother
      rw [pairRow_ended hterminal hk hlast, pairRow_ended hterminal hk' hlast']

/-! ## The loop -/

/-- A row that was read: a slot, or an end that is still in its place. -/
structure Cell (D : Type) where
  slot : Slot D
  consumed : Bool := false

def Cell.isOpen (k : Text) (cell : Cell D) : Bool :=
  !cell.consumed && cell.slot.isOpen eventIdentityKey k

def Cell.out (estimateDuration : Text → Text → Option D) (cell : Cell D) : IntuneEvent D :=
  cell.slot.out estimateDuration

/-- The state of the loop after the rows of `cells`, before the rows of `rest`. -/
structure Reads (estimateDuration : Text → Text → Option D) (read rest : List (IntuneEvent D))
    (cells : List (Cell D)) (st : PairState D) : Prop where
  length : cells.length = read.length
  events : st.events = cells.map (Cell.out estimateDuration) ++ rest
  consumed : ∀ i, st.consumedEndIndices.contains i = cells[i]?.any Cell.consumed
  opened : ∀ k, st.openEvents k = placesFrom (Cell.isOpen k) 0 cells
  slots : (cells.filter fun cell => !cell.consumed).map Cell.slot =
    scanPairs eventIdentityKey read

variable {estimateDuration : Text → Text → Option D} {read rest : List (IntuneEvent D)}
  {cells : List (Cell D)} {st : PairState D} {row : IntuneEvent D}

theorem any_getElem?_snoc {A : Type} (p : A → Bool) (xs : List A) (a : A) (i : Nat) :
    (xs ++ [a])[i]?.any p = (xs[i]?.any p || (i == xs.length && p a)) := by
  rcases Nat.lt_trichotomy i xs.length with hi | hi | hi
  · rw [List.getElem?_append_left hi, beq_false_of_ne (by omega), Bool.false_and, Bool.or_false]
  · rw [hi, List.getElem?_concat_length, List.getElem?_eq_none (Nat.le_refl _), BEq.rfl,
      Bool.true_and]
    rfl
  · rw [List.getElem?_eq_none (by rw [List.length_append, List.length_singleton]; omega),
      List.getElem?_eq_none (by omega), beq_false_of_ne (by omega)]
    rfl

theorem Reads.current (h : Reads estimateDuration read (row :: rest) cells st) :
    st.events[read.length]? = some row := by
  rw [h.events, ← h.length, List.getElem?_append_right (by rw [List.length_map]),
    List.length_map, Nat.sub_self]
  rfl

theorem Reads.fresh (h : Reads estimateDuration read rest cells st) :
    st.consumedEndIndices.contains read.length = false := by
  rw [h.consumed, ← h.length, List.getElem?_eq_none (Nat.le_refl _)]
  rfl

theorem Reads.keep (h : Reads estimateDuration read (row :: rest) cells st)
    (hkept : Unstarted eventIdentityKey (scanPairs eventIdentityKey read) row)
    {opened : Text → List Nat}
    (hopened : ∀ k, opened k =
      (if (({ row := row } : Slot D).isOpen eventIdentityKey k) then [read.length] else []) ++
        st.openEvents k) :
    Reads estimateDuration (read ++ [row]) rest (cells ++ [{ slot := { row := row } }])
      { st with openEvents := opened } := by
  refine ⟨?_, ?_, fun i => ?_, fun k => ?_, ?_⟩
  · rw [List.length_append, List.length_append, h.length]
    rfl
  · rw [List.map_append, List.append_assoc]
    exact h.events
  · rw [h.consumed, any_getElem?_snoc, Bool.and_false, Bool.or_false]
  · rw [placesFrom_snoc, ← h.opened, h.length]
    exact hopened k
  · rw [scanPairs_snoc, pairRow_kept hkept, List.filter_append, List.map_append, h.slots]
    rfl

theorem Reads.finish {k : Text} {pre post : List (Cell D)} {cell : Cell D}
    (h : Reads estimateDuration read (row :: rest) cells st)
    (hterminal : row.status.isTerminal = true) (hk : eventIdentityKey row = some k)
    (hlast : LastAt (Cell.isOpen k) cells pre cell post) :
    Reads estimateDuration (read ++ [row]) rest
      ((pre ++ { cell with slot := cell.slot.close row } :: post) ++
        [{ slot := { row := row }, consumed := true }])
      { events := st.events.modify pre.length fun start => closed estimateDuration start row
        consumedEndIndices := read.length :: st.consumedEndIndices
        openEvents := Function.update st.openEvents k (placesFrom (Cell.isOpen k) 0 pre) } := by
  have hcell : cell.consumed = false ∧ cell.slot.isOpen eventIdentityKey k = true := by
    have hopen := hlast.has
    rw [Cell.isOpen, Bool.and_eq_true, Bool.not_eq_true'] at hopen
    exact hopen
  obtain ⟨hstart, hsame, hclosing⟩ := isOpen_iff.mp hcell.2
  have hcloses : ∀ k', (cell.slot.close row).isOpen eventIdentityKey k' = false := by
    intro k'
    rw [← Bool.not_eq_true, isOpen_iff]
    rintro ⟨_, _, hnone⟩
    cases hnone
  refine ⟨?_, ?_, fun i => ?_, fun k' => ?_, ?_⟩
  · have hlen := h.length
    rw [hlast.eq] at hlen
    simp only [List.length_append, List.length_cons, List.length_nil] at hlen ⊢
    omega
  · have hout : cell.out estimateDuration = cell.slot.row := by
      rw [Cell.out, Slot.out, hclosing]
    have hpre : pre.length = (pre.map (Cell.out estimateDuration)).length := by
      rw [List.length_map]
    rw [h.events, hlast.eq, List.map_append, List.map_cons, hout, List.append_assoc,
      List.cons_append,
      hpre, modify_length_append]
    simp [List.map_append, Cell.out, Slot.out, Slot.close]
  · rw [List.contains_cons, h.consumed, hlast.eq]
    have hlen := h.length
    rw [hlast.eq] at hlen
    have hold : (pre ++ { cell with slot := cell.slot.close row } :: post)[i]?.any Cell.consumed =
        (pre ++ cell :: post)[i]?.any Cell.consumed := by
      rcases Nat.lt_trichotomy i pre.length with hi | hi | hi
      · rw [List.getElem?_append_left hi, List.getElem?_append_left hi]
      · rw [hi, List.getElem?_append_right (Nat.le_refl _),
          List.getElem?_append_right (Nat.le_refl _),
          Nat.sub_self]
        rfl
      · obtain ⟨j, rfl⟩ := Nat.exists_eq_add_of_lt hi
        rw [List.getElem?_append_right (by omega), List.getElem?_append_right (by omega),
          show pre.length + j + 1 - pre.length = j + 1 from by omega]
        rfl
    have hlen' : (pre ++ { cell with slot := cell.slot.close row } :: post).length =
        read.length := by
      rw [← hlen, List.length_append, List.length_append]
      rfl
    rw [any_getElem?_snoc, hold, hlen', Bool.and_true, Bool.or_comm]
  · have hend : ∀ k'', Cell.isOpen k'' ({ slot := { row := row }, consumed := true } : Cell D) =
        false := fun _ => rfl
    show Function.update st.openEvents k (placesFrom (Cell.isOpen k) 0 pre) k' = _
    rw [placesFrom_snoc, hend, if_neg Bool.false_ne_true, List.nil_append]
    have hnew : ∀ k'', Cell.isOpen k'' { cell with slot := cell.slot.close row } = false := by
      intro k''
      rw [Cell.isOpen, hcloses, Bool.and_false]
    by_cases hk' : k' = k
    · rw [hk', Function.update_self, hlast.places_changed (hnew k)]
    · have hother : cell.isOpen k' = false := by
        rw [Cell.isOpen, Bool.and_eq_false_iff, ← Bool.not_eq_true (cell.slot.isOpen _ _),
          isOpen_iff]
        right
        rintro ⟨_, hsame', _⟩
        exact hk' (Option.some.inj (hsame'.symm.trans hsame))
      rw [Function.update_of_ne hk', h.opened, hlast.eq]
      refine placesFrom_congr ?_ 0
      rw [List.map_append, List.map_append, List.map_cons, List.map_cons, hother, hnew]
  · have hslots := h.slots
    rw [hlast.eq, List.filter_append, List.map_append,
      List.filter_cons_of_pos (by rw [hcell.1]; rfl), List.map_cons] at hslots
    have hlast' : LastAt (Slot.isOpen eventIdentityKey k) (scanPairs eventIdentityKey read)
        ((pre.filter fun cell => !cell.consumed).map Cell.slot) cell.slot
        ((post.filter fun cell => !cell.consumed).map Cell.slot) := by
      refine ⟨hslots.symm, hcell.2, fun slot hslot => ?_⟩
      obtain ⟨other, hother, rfl⟩ := List.mem_map.mp hslot
      obtain ⟨hmem, hconsumed⟩ := List.mem_filter.mp hother
      have hnone := hlast.none_after other hmem
      rwa [Cell.isOpen, hconsumed, Bool.true_and] at hnone
    rw [scanPairs_snoc, pairRow_ended hterminal hk hlast', List.filter_append, List.filter_append,
      List.filter_cons_of_pos (by rw [hcell.1]; rfl), List.map_append, List.map_append,
      List.map_cons]
    exact List.append_nil _

theorem pairStep_reads (h : Reads estimateDuration read (row :: rest) cells st) :
    ∃ cells', Reads estimateDuration (read ++ [row]) rest cells'
      (pairStep estimateDuration st read.length) := by
  have hslot : ∀ slot ∈ scanPairs eventIdentityKey read, ∃ cell ∈ cells, cell.slot = slot ∧
      cell.consumed = false := by
    intro slot hslot
    rw [← h.slots] at hslot
    obtain ⟨cell, hcell, hslot⟩ := List.mem_map.mp hslot
    obtain ⟨hmem, hconsumed⟩ := List.mem_filter.mp hcell
    exact ⟨cell, hmem, hslot, by rwa [Bool.not_eq_true'] at hconsumed⟩
  rw [pairStep, h.current]
  dsimp only
  cases hk : eventIdentityKey row with
  | none =>
    have hkept : Unstarted eventIdentityKey (scanPairs eventIdentityKey read) row := by
      intro _ k hk'
      rw [hk] at hk'
      cases hk'
    refine ⟨_, h.keep hkept fun k => ?_⟩
    rw [Slot.isOpen, hk]
    simp
  | some key =>
    dsimp only
    by_cases hstatus : row.status = .inProgress
    · have hkept : Unstarted eventIdentityKey (scanPairs eventIdentityKey read) row := by
        intro hterminal
        rw [hstatus] at hterminal
        cases hterminal
      rw [if_pos hstatus]
      refine ⟨_, h.keep hkept fun k => ?_⟩
      by_cases hkey : k = key
      · rw [hkey, Function.update_self, Slot.isOpen, hk]
        simp [hstatus]
      · rw [Function.update_of_ne hkey, Slot.isOpen, hk]
        simp [Ne.symm hkey]
    · rw [if_neg hstatus]
      have hnotOpen : ∀ k, ({ row := row } : Slot D).isOpen eventIdentityKey k = false := by
        intro k
        rw [← Bool.not_eq_true, isOpen_iff]
        exact fun hopen => hstatus hopen.1
      have hsame : ∀ k, st.openEvents k =
          (if (({ row := row } : Slot D).isOpen eventIdentityKey k) then [read.length] else []) ++
            st.openEvents k := by
        intro k
        rw [hnotOpen, if_neg Bool.false_ne_true, List.nil_append]
      cases hterminal : row.status.isTerminal with
      | false =>
        have hkept : Unstarted eventIdentityKey (scanPairs eventIdentityKey read) row := by
          intro hterminal'
          rw [hterminal] at hterminal'
          cases hterminal'
        exact ⟨_, h.keep hkept hsame⟩
      | true =>
        simp only [Bool.not_true, Bool.false_eq_true, if_false]
        obtain ⟨pre, cell, post, hlast, _⟩ | ⟨hnone, _⟩ :=
          changeLast_cases (Cell.isOpen key) id cells
        · have hfinish := h.finish hterminal hk hlast
          rw [h.opened, hlast.places]
          simp only [h.fresh, Bool.false_eq_true, if_false]
          exact ⟨_, hfinish⟩
        · have hkept : Unstarted eventIdentityKey (scanPairs eventIdentityKey read) row := by
            intro _ k' hk' slot hmem
            obtain rfl := Option.some.inj (hk.symm.trans hk')
            obtain ⟨cell, hcell, rfl, hconsumed⟩ := hslot slot hmem
            have hclosed := hnone cell hcell
            rwa [Cell.isOpen, hconsumed] at hclosed
          rw [h.opened, placesFrom_none hnone]
          exact ⟨_, h.keep hkept hsame⟩

theorem pairSteps_reads (events : List (IntuneEvent D)) :
    ∃ cells, Reads estimateDuration events [] cells
      ((List.range events.length).foldl (pairStep estimateDuration) { events := events }) := by
  have hrun : ∀ read rest : List (IntuneEvent D), events = read ++ rest →
      ∃ cells, Reads estimateDuration read rest cells
        ((List.range read.length).foldl (pairStep estimateDuration) { events := events }) := by
    intro read
    induction read using List.reverseRecOn with
    | nil =>
      intro rest hevents
      exact ⟨[], rfl, hevents, fun i => rfl, fun k => rfl, rfl⟩
    | append_singleton read row ih =>
      intro rest hevents
      rw [List.append_assoc] at hevents
      obtain ⟨cells, h⟩ := ih (row :: rest) hevents
      rw [List.length_append, List.length_singleton, List.range_succ, List.foldl_append]
      exact pairStep_reads h
  exact hrun events [] (List.append_nil events).symm

theorem retainFrom_cells {consumed : List Nat} (cells : List (Cell D)) : ∀ {base : Nat},
    (∀ i < cells.length, consumed.contains (base + i) = cells[i]?.any Cell.consumed) →
    retainFrom consumed base (cells.map (Cell.out estimateDuration)) =
      ((cells.filter fun cell => !cell.consumed).map Cell.slot).map
        (Slot.out estimateDuration) := by
  induction cells with
  | nil => exact fun _ => rfl
  | cons cell cells ih =>
    intro base h
    have hhead := h 0 (Nat.zero_lt_succ _)
    have hrest := @ih (base + 1) fun i hi => by
      have hnext := h (i + 1) (Nat.succ_lt_succ hi)
      rwa [← Nat.add_assoc, Nat.add_right_comm] at hnext
    rw [Nat.add_zero] at hhead
    rw [List.map_cons, retainFrom, hhead, hrest]
    cases hcell : cell.consumed with
    | true =>
      rw [List.filter_cons_of_neg (by rw [hcell]; decide)]
      simp [hcell]
    | false =>
      rw [List.filter_cons_of_pos (by rw [hcell]; rfl)]
      simp [hcell, Cell.out]

theorem retainFrom_nil (events : List (IntuneEvent D)) (base : Nat) :
    retainFrom [] base events = events := by
  induction events generalizing base with
  | nil => rfl
  | cons event events ih =>
    rw [retainFrom, ih]
    rfl

theorem pairEvents_eq_scan (estimateDuration : Text → Text → Option D)
    (events : List (IntuneEvent D)) :
    pairEvents estimateDuration events =
      (scanPairs eventIdentityKey events).map (Slot.out estimateDuration) := by
  obtain ⟨cells, h⟩ := @pairSteps_reads D estimateDuration events
  have hevents := h.events
  rw [List.append_nil] at hevents
  have hretain := @retainFrom_cells D estimateDuration _ cells 0
    fun i _ => by rw [Nat.zero_add]; exact h.consumed i
  rw [h.slots] at hretain
  rw [pairEvents]
  split_ifs with hnone
  · rw [← hretain, ← hevents, hnone, retainFrom_nil]
  · rw [hevents, hretain]

/-! ## Keys and identities -/

/-- What tells operations apart: the source, the type and the GUID or else the name. -/
def IntuneEvent.identity (event : IntuneEvent D) : Option (Text × IntuneEventType × Text) :=
  event.fragment.map fun fragment => (event.sourceFile, event.eventType, fragment)

def IntuneEvent.PlainGuid (event : IntuneEvent D) : Prop :=
  ∀ guid, event.guid = some guid → '|' ∉ guid

theorem last_separator_inj {A : Type} {u : A} {a b x y : List A} (hx : u ∉ x) (hy : u ∉ y)
    (h : a ++ u :: x = b ++ u :: y) : a = b ∧ x = y := by
  rcases List.append_eq_append_iff.mp h with ⟨c, rfl, hc⟩ | ⟨c, rfl, hc⟩
  · cases c with
    | nil => exact ⟨(List.append_nil a).symm, (List.cons.inj hc).2⟩
    | cons d c =>
      refine absurd ?_ hx
      rw [(List.cons.inj hc).2]
      exact List.mem_append_right _ List.mem_cons_self
  · cases c with
    | nil => exact ⟨List.append_nil b, ((List.cons.inj hc).2).symm⟩
    | cons d c =>
      refine absurd ?_ hy
      rw [(List.cons.inj hc).2]
      exact List.mem_append_right _ List.mem_cons_self

theorem mem_splitWhitespaceFrom {c : Char} {s word part : Text}
    (hword : part ∈ splitWhitespaceFrom word s) (hc : c ∈ part) : c ∈ word ∨ c ∈ s := by
  induction s generalizing word with
  | nil =>
    rw [splitWhitespaceFrom] at hword
    split_ifs at hword
    · cases hword
    · rw [List.mem_singleton.mp hword] at hc
      exact .inl (List.mem_reverse.mp hc)
  | cons d s ih =>
    have hlater : ∀ {word' : Text}, part ∈ splitWhitespaceFrom word' s → word' ⊆ d :: word →
        c ∈ word ∨ c ∈ d :: s := by
      intro word' hpart hsub
      rcases ih hpart with hmem | hmem
      · rcases List.mem_cons.mp (hsub hmem) with rfl | hmem
        · exact .inr List.mem_cons_self
        · exact .inl hmem
      · exact .inr (List.mem_cons_of_mem _ hmem)
    rw [splitWhitespaceFrom] at hword
    split_ifs at hword
    · exact hlater hword (List.nil_subset _)
    · rcases List.mem_cons.mp hword with rfl | hword
      · exact .inl (List.mem_reverse.mp hc)
      · exact hlater hword (List.nil_subset _)
    · exact hlater hword (List.Subset.refl _)

theorem mem_join {c : Char} {sep : Text} {parts : List Text} (h : c ∈ join sep parts) :
    c ∈ sep ∨ ∃ part ∈ parts, c ∈ part := by
  induction parts with
  | nil => cases h
  | cons part parts ih =>
    cases parts with
    | nil => exact .inr ⟨part, List.mem_cons_self, h⟩
    | cons next parts =>
      rw [join, List.mem_append, List.mem_append] at h
      rcases h with (h | h) | h
      · exact .inr ⟨part, List.mem_cons_self, h⟩
      · exact .inl h
      · rcases ih h with h | ⟨other, hother, h⟩
        · exact .inl h
        · exact .inr ⟨other, List.mem_cons_of_mem _ hother, h⟩

theorem bar_not_mem_normalize (value : Text) : '|' ∉ normalizeIdentityFragment value := by
  have hchar : ∀ ch : Char, (if isAsciiAlphanumeric ch then ch.toLower else ' ') ≠ '|' := by
    intro ch
    split_ifs with halnum
    · intro hbar
      have halpha := Char.isAlpha_toLower_eq_isAlpha ch
      rw [hbar] at halpha
      have hletter : ch.isAlpha = false := halpha.symm.trans (by decide)
      have hupper : ¬ ch.isUpper = true := by
        intro hupper
        rw [Char.isAlpha, hupper] at hletter
        cases hletter
      rw [isAsciiAlphanumeric, Char.isAlphanum, hletter, Bool.false_or,
        ← Char.toLower_eq_of_not_isUpper hupper, hbar] at halnum
      cases halnum
    · decide
  intro hmem
  rw [normalizeIdentityFragment] at hmem
  rcases mem_join hmem with hsep | ⟨part, hpart, hmem⟩
  · revert hsep
    decide
  · rcases mem_splitWhitespaceFrom (List.mem_of_mem_take hpart) hmem with hnone | hmem
    · cases hnone
    · obtain ⟨ch, _, hbar⟩ := List.mem_map.mp hmem
      exact hchar ch hbar

theorem bar_not_mem_fragment {event : IntuneEvent D} (h : event.PlainGuid) {fragment : Text}
    (hfragment : event.fragment = some fragment) : '|' ∉ fragment := by
  rw [IntuneEvent.fragment] at hfragment
  cases hguid : event.guid with
  | some guid =>
    rw [hguid] at hfragment
    cases hfragment
    exact h _ hguid
  | none =>
    rw [hguid] at hfragment
    dsimp only at hfragment
    split_ifs at hfragment
    cases hfragment
    exact bar_not_mem_normalize event.name

theorem flatKey_inj {s s' f f' : Text} {t t' : IntuneEventType} (hf : '|' ∉ f) (hf' : '|' ∉ f')
    (h : flatKey s t f = flatKey s' t' f') : s = s' ∧ t = t' ∧ f = f' := by
  have htype : ∀ t, '|' ∉ (eventTypeIdentity t).toList := by
    intro t
    cases t <;> decide
  have hinj : ∀ t t', (eventTypeIdentity t).toList = (eventTypeIdentity t').toList → t = t' := by
    intro t t'
    cases t <;> cases t' <;> decide
  have hsplit : ∀ s t f, flatKey s t f =
      (s ++ '|' :: (eventTypeIdentity t).toList) ++ '|' :: f := by
    intro s t f
    rw [flatKey, List.append_assoc]
    rfl
  rw [hsplit, hsplit] at h
  obtain ⟨hfront, hfragment⟩ := last_separator_inj hf hf' h
  obtain ⟨hsource, hname⟩ := last_separator_inj (htype t) (htype t') hfront
  exact ⟨hsource, hinj t t' hname, hfragment⟩

theorem sameKey_iff {a b : IntuneEvent D} (ha : a.PlainGuid) (hb : b.PlainGuid) :
    (∃ k, eventIdentityKey a = some k ∧ eventIdentityKey b = some k) ↔
      ∃ k, a.identity = some k ∧ b.identity = some k := by
  rw [eventIdentityKey, eventIdentityKey, IntuneEvent.identity, IntuneEvent.identity]
  cases hfa : a.fragment with
  | none => simp
  | some fa =>
    cases hfb : b.fragment with
    | none => simp
    | some fb =>
      simp only [Option.map_some, Option.some_inj, exists_eq_left', Prod.mk.injEq]
      constructor
      · intro h
        obtain ⟨hs, ht, hf⟩ :=
          flatKey_inj (bar_not_mem_fragment hb hfb) (bar_not_mem_fragment ha hfa) h
        exact ⟨hs, ht, hf⟩
      · rintro ⟨hs, ht, hf⟩
        rw [hs, ht, hf]

/-- The loop is the reference, with ends matched to starts; it tells operations apart by
their identities when no GUID has a bar. -/
theorem pairEvents_spec (estimateDuration : Text → Text → Option D)
    (events : List (IntuneEvent D)) :
    pairEvents estimateDuration events =
        (scanPairs eventIdentityKey events).map (Slot.out estimateDuration) ∧
      Matching eventIdentityKey events (scanPairs eventIdentityKey events) ∧
      (pairEvents estimateDuration events).length +
        ((scanPairs eventIdentityKey events).filterMap Slot.closing).length = events.length ∧
      ((∀ event ∈ events, event.PlainGuid) →
        pairEvents estimateDuration events =
            (scanPairs IntuneEvent.identity events).map (Slot.out estimateDuration) ∧
          Matching IntuneEvent.identity events (scanPairs IntuneEvent.identity events)) := by
  have hscan := pairEvents_eq_scan estimateDuration events
  have hmatching := scanPairs_matching eventIdentityKey events
  refine ⟨hscan, hmatching, ?_, fun hplain => ⟨?_, scanPairs_matching _ events⟩⟩
  · have hlen := hmatching.accounted.length_eq
    rw [List.length_append, List.length_map] at hlen
    rw [hscan, List.length_map]
    exact hlen
  · rw [hscan, scanPairs_congr events fun a ha b hb => sameKey_iff (hplain a ha) (hplain b hb)]

/-- The identity with an empty name as a name like any other. -/
def namedIdentity (event : IntuneEvent D) : Option (Text × IntuneEventType × Text) :=
  some (event.sourceFile, event.eventType,
    event.guid.getD (normalizeIdentityFragment event.name))

def sampleRow (source name : String) (guid : Option String) (status : IntuneStatus) :
    IntuneEvent Nat :=
  { id := 0, eventType := .win32App, name := name.toList, guid := guid.map String.toList
    status := status, startTime := none, endTime := none, durationSecs := none
    errorCode := none, detail := [], sourceFile := source.toList, lineNumber := 1
    startTimeEpoch := none, endTimeEpoch := none, scriptBody := none, parentAppGuid := none }

/-- A start and an outcome of another source and GUID whose keys are one text. -/
def barredRows : List (IntuneEvent Nat) :=
  [sampleRow "a|win32|b" "App" (some "c") .inProgress,
    sampleRow "a" "App" (some "b|win32|c") .success]

/-- A start and an outcome whose names have no ASCII letters. -/
def unnamedRows : List (IntuneEvent Nat) :=
  [sampleRow "a" "安装" none .inProgress, sampleRow "a" "安装" none .success]

theorem pairEvents_not_by_name :
    pairEvents (fun _ _ => none) barredRows ≠
        (scanPairs namedIdentity barredRows).map (Slot.out fun _ _ => none) ∧
      pairEvents (fun _ _ => none) unnamedRows ≠
        (scanPairs namedIdentity unnamedRows).map (Slot.out fun _ _ => none) := by
  decide +kernel

end Intune
end CmTrace
