import CmTrace.Parser.Host
import CmTrace.Watcher.Reader

/-!
# Logical records of the Device Inventory logs

Physical lines are gathered into records, each begun by a header.  A record that
reaches the size bound is completed where it stands, inside a line, and the rest of
the line begins the next one.  A reader hands lines over as it gets them, and keeps
the newest record between two calls.
-/

namespace CmTrace
namespace Inventory

open Text Watcher
open Watcher.TailReader (trimEndCr maxLogicalRecordBytes)
open Regex (chain oneOf word many plus between times dot)

/-! ## Headers -/

section Headers

variable (host : Host)

def digits (low high : Nat) : Regex := between low high host.decimalNumber

def upperCase : Regex := .char fun c => decide ('A' ≤ c ∧ c ≤ 'Z')

def lowerCase : Regex := .char fun c => decide ('a' ≤ c ∧ c ≤ 'z')

def harvesterRe : Regex :=
  chain [.begin, digits host 1 2, word ['/'], digits host 1 2, word ['/'], digits host 4 4,
    word [' '], digits host 1 2, word [':'], digits host 2 2, word [':'], digits host 2 2,
    word [' '], .char (fun c => c == 'A' || c == 'P'), word ['M', ' ', '['],
    oneOf [word "Information".toList, word "Warning".toList, word "Error".toList],
    word [']', ' '], many dot, .stop]

def adaptorRe : Regex :=
  chain [.begin, word ['['], upperCase, times 2 lowerCase, word [' '], upperCase,
    times 2 lowerCase, plus (word [' ']), digits host 1 2, word [' '], digits host 2 2,
    word [':'], digits host 2 2, word [':'], digits host 2 2, word [' '], digits host 4 4,
    word [']', '['], plus host.decimalNumber, word [']', ' ', '-', ' '], many dot, .stop]

def rotationRe : Regex :=
  chain [.begin, digits host 4 4, word ['-'], digits host 2 2, word ['-'], digits host 2 2,
    word ['T'], plus (.char fun c => c != ' '), word [' '], many dot, .stop]

def isRecordHeader (dialect : DeviceInventoryLogDialect) (line : Text) : Bool :=
  match dialect with
  | .harvester        => (harvesterRe host).isMatch line
  | .inventoryAdaptor => (adaptorRe host).isMatch line
  | .rotationFailure  => (rotationRe host).isMatch line

end Headers

/-! ## Framing -/

/-- A piece that is completed inside a line; the rest goes on with the line. -/
def split (content : Text) : FramedLogicalRecord :=
  { content := content, physicalLines := content.count '\n' }

structure Framing where
  completedRecords : List FramedLogicalRecord := []
  pendingRecord : Option Text := none
  overflowCount : Nat := 0
  maxPendingBytesObserved : Nat := 0
  deriving DecidableEq, Repr

def Framing.available (s : Framing) : Nat :=
  maxLogicalRecordBytes - byteLen (s.pendingRecord.getD [])

def Framing.observed (s : Framing) (taken : Text) : Nat :=
  if taken = [] then s.maxPendingBytesObserved
  else max s.maxPendingBytesObserved (byteLen (s.pendingRecord.getD [] ++ taken))

/-- The record that is held takes what it has room for, and is completed when
something is left. -/
def appendRounds : Nat → Framing → Text → Framing
  | 0, s, _ => s
  | fuel + 1, s, text =>
    if text = [] then s
    else
      let taken := takeBytes s.available text
      let rest := dropBytes s.available text
      let record := s.pendingRecord.getD [] ++ taken
      if rest = [] then
        { s with
          pendingRecord           := some record
          maxPendingBytesObserved := s.observed taken }
      else
        appendRounds fuel
          { completedRecords        := s.completedRecords ++ [split record]
            pendingRecord           := none
            overflowCount           := saturatingAdd u32Max s.overflowCount 1
            maxPendingBytesObserved := s.observed taken } rest

def appendBounded (s : Framing) (text : Text) : Framing :=
  let s := appendRounds (text.length + 2) s text
  { s with pendingRecord := some (s.pendingRecord.getD []) }

def completePending (s : Framing) : Framing :=
  match s.pendingRecord with
  | some record =>
    { s with
      completedRecords := s.completedRecords ++ [FramedLogicalRecord.complete record]
      pendingRecord    := none }
  | none => s

def frameSegment (host : Host) (dialect : DeviceInventoryLogDialect) (s : Framing) :
    LogicalRecordSegment → Framing
  | .lineStart rawLine =>
    let line := trimEndCr rawLine
    let s := if isRecordHeader host dialect line then completePending s else s
    if s.pendingRecord.isSome then appendBounded (appendBounded s ['\n']) line
    else appendBounded { s with pendingRecord := some [] } line
  | .lineContinuation text =>
    appendBounded { s with pendingRecord := some (s.pendingRecord.getD []) } text

def frameLogicalRecords (host : Host) (dialect : DeviceInventoryLogDialect)
    (pendingRecord : Option Text) (segments : List LogicalRecordSegment) : Option Framing :=
  let observed := (pendingRecord.map byteLen).getD 0
  if maxLogicalRecordBytes < observed then none
  else some (segments.foldl (frameSegment host dialect)
    { pendingRecord := pendingRecord, maxPendingBytesObserved := observed })

def Framing.flushPending (s : Framing) : List FramedLogicalRecord :=
  s.completedRecords ++ s.pendingRecord.toList.map FramedLogicalRecord.complete

/-! ## What framing keeps -/

def isSplit (r : FramedLogicalRecord) : Bool := r.physicalLines == r.content.count '\n'

/-- The text a completed record stands for: a record that ends at a record boundary
ends its line. -/
def withBreak (r : FramedLogicalRecord) : Text :=
  r.content ++ if isSplit r then [] else ['\n']

@[simp] theorem isSplit_split (content : Text) : isSplit (split content) = true :=
  beq_self_eq_true _

@[simp] theorem isSplit_complete (content : Text) :
    isSplit (FramedLogicalRecord.complete content) = false := by
  rw [isSplit, FramedLogicalRecord.complete, beq_eq_false_iff_ne]
  exact Nat.succ_ne_self _

theorem withBreak_split (content : Text) : withBreak (split content) = content := by
  rw [withBreak, isSplit_split, if_pos rfl]
  exact List.append_nil content

theorem withBreak_complete (content : Text) :
    withBreak (FramedLogicalRecord.complete content) = content ++ ['\n'] := by
  rw [withBreak, isSplit_complete, if_neg Bool.false_ne_true]
  rfl

/-- The state of framing after `text`. -/
structure Sound (s : Framing) (text : Text) : Prop where
  bounded : ∀ r ∈ s.completedRecords, byteLen r.content ≤ maxLogicalRecordBytes
  held : ∀ record ∈ s.pendingRecord, byteLen record ≤ maxLogicalRecordBytes
  kinds : ∀ r ∈ s.completedRecords,
    r = split r.content ∨ r = FramedLogicalRecord.complete r.content
  counted : s.overflowCount = min (s.completedRecords.countP isSplit) u32Max
  written : s.completedRecords.flatMap withBreak ++ s.pendingRecord.getD [] = text

namespace Sound

variable {s : Framing} {text : Text}

theorem held_getD (h : Sound s text) :
    byteLen (s.pendingRecord.getD []) ≤ maxLogicalRecordBytes := by
  cases hpending : s.pendingRecord with
  | none => exact Nat.zero_le _
  | some record => exact h.held record hpending

theorem start (h : Sound s text) :
    Sound { s with pendingRecord := some (s.pendingRecord.getD []) } text where
  bounded := h.bounded
  held record hrecord := by
    obtain rfl := Option.some.inj hrecord
    exact h.held_getD
  kinds := h.kinds
  counted := h.counted
  written := h.written

theorem take (h : Sound s text) {piece : Text} (observed : Nat)
    (hfits : byteLen (s.pendingRecord.getD [] ++ piece) ≤ maxLogicalRecordBytes) :
    Sound { s with
      pendingRecord           := some (s.pendingRecord.getD [] ++ piece)
      maxPendingBytesObserved := observed } (text ++ piece) where
  bounded := h.bounded
  held record hrecord := by
    obtain rfl := Option.some.inj hrecord
    exact hfits
  kinds := h.kinds
  counted := h.counted
  written := by
    rw [Option.getD_some, ← List.append_assoc, h.written]

theorem cut (h : Sound s text) {piece : Text} (observed : Nat)
    (hfits : byteLen (s.pendingRecord.getD [] ++ piece) ≤ maxLogicalRecordBytes) :
    Sound
      { completedRecords        := s.completedRecords ++ [split (s.pendingRecord.getD [] ++ piece)]
        pendingRecord           := none
        overflowCount           := saturatingAdd u32Max s.overflowCount 1
        maxPendingBytesObserved := observed } (text ++ piece) where
  bounded r hr := by
    rcases List.mem_append.mp hr with hr | hr
    · exact h.bounded r hr
    · rw [List.mem_singleton.mp hr]
      exact hfits
  held _ hrecord := by cases hrecord
  kinds r hr := by
    rcases List.mem_append.mp hr with hr | hr
    · exact h.kinds r hr
    · rw [List.mem_singleton.mp hr]
      exact Or.inl rfl
  counted := by
    show saturatingAdd u32Max s.overflowCount 1 = _
    rw [List.countP_append, List.countP_singleton, isSplit_split, if_pos rfl, saturatingAdd,
      h.counted]
    omega
  written := by
    rw [List.flatMap_append, List.flatMap_singleton, withBreak_split, Option.getD_none,
      List.append_nil, ← List.append_assoc, h.written]

theorem complete (h : Sound s text) {record : Text} (hpending : s.pendingRecord = some record) :
    Sound (completePending s) (text ++ ['\n']) := by
  have hfields : completePending s =
      { s with
        completedRecords := s.completedRecords ++ [FramedLogicalRecord.complete record]
        pendingRecord    := none } := by
    rw [completePending, hpending]
  rw [hfields]
  refine ⟨?_, ?_, ?_, ?_, ?_⟩
  · intro r hr
    rcases List.mem_append.mp hr with hr | hr
    · exact h.bounded r hr
    · rw [List.mem_singleton.mp hr]
      exact h.held record hpending
  · intro _ hrecord
    cases hrecord
  · intro r hr
    rcases List.mem_append.mp hr with hr | hr
    · exact h.kinds r hr
    · rw [List.mem_singleton.mp hr]
      exact Or.inr rfl
  · rw [List.countP_append, List.countP_singleton, isSplit_complete, if_neg Bool.false_ne_true,
      Nat.add_zero]
    exact h.counted
  · have hwritten := h.written
    rw [hpending, Option.getD_some] at hwritten
    rw [List.flatMap_append, List.flatMap_singleton, withBreak_complete, Option.getD_none,
      List.append_nil, ← List.append_assoc, hwritten]

end Sound

theorem takeBytes_ne_nil {text : Text} (h : text ≠ []) :
    takeBytes maxLogicalRecordBytes text ≠ [] := by
  cases text with
  | nil => exact absurd rfl h
  | cons c text =>
    have hsize : c.utf8Size ≤ 4 := c.utf8Size_le_four
    have hmax : 4 ≤ maxLogicalRecordBytes := by decide
    rw [takeBytes, if_pos (Nat.le_trans hsize hmax)]
    exact List.cons_ne_nil _ _

theorem appendRounds_sound {fuel : Nat} {s : Framing} {before text : Text} (h : Sound s before)
    (hfuel : text.length + (if s.pendingRecord.getD [] = [] then 0 else 1) ≤ fuel) :
    Sound (appendRounds fuel s text) (before ++ text) := by
  induction fuel generalizing s before text with
  | zero =>
    have hnil : text = [] := List.length_eq_zero_iff.mp (by omega)
    rw [hnil, List.append_nil]
    exact h
  | succ fuel ih =>
    rw [appendRounds]
    by_cases hnil : text = []
    · rw [if_pos hnil, hnil, List.append_nil]
      exact h
    · rw [if_neg hnil]
      dsimp only
      have hsplit := takeBytes_append_dropBytes s.available text
      have hlen := congrArg List.length hsplit
      rw [List.length_append] at hlen
      have hfits : byteLen (s.pendingRecord.getD [] ++ takeBytes s.available text) ≤
          maxLogicalRecordBytes := by
        have htaken := byteLen_takeBytes_le s.available text
        have hheld := h.held_getD
        have havailable : s.available =
          maxLogicalRecordBytes - byteLen (s.pendingRecord.getD []) := rfl
        rw [byteLen_append]
        omega
      by_cases hrest : dropBytes s.available text = []
      · rw [if_pos hrest]
        rw [hrest, List.append_nil] at hsplit
        have htake := h.take (s.observed (takeBytes s.available text)) hfits
        rw [hsplit] at htake ⊢
        exact htake
      · rw [if_neg hrest]
        -- a round that takes nothing completes a record that is not empty
        have hprogress : (dropBytes s.available text).length + 0 ≤ fuel := by
          by_cases hempty : s.pendingRecord.getD [] = []
          · have hall : s.available = maxLogicalRecordBytes := by
              rw [Framing.available, hempty, byteLen_nil, Nat.sub_zero]
            have hpos := List.length_pos_iff.mpr (takeBytes_ne_nil hnil)
            rw [if_pos hempty] at hfuel
            rw [hall] at hlen ⊢
            omega
          · rw [if_neg hempty] at hfuel
            omega
        have hnext := ih (h.cut (s.observed (takeBytes s.available text)) hfits) hprogress
        rw [List.append_assoc, hsplit] at hnext
        exact hnext

theorem appendBounded_sound {s : Framing} {before : Text} (h : Sound s before) (text : Text) :
    Sound (appendBounded s text) (before ++ text) := by
  refine (appendRounds_sound h ?_).start
  split_ifs
  · omega
  · omega

/-! ## Lines -/

/-- A segment begins a line, without its carriage returns, or goes on with the last. -/
def addSegment (lines : List Text) : LogicalRecordSegment → List Text
  | .lineStart rawLine     => lines ++ [trimEndCr rawLine]
  | .lineContinuation text => lines.dropLast ++ [lines.getLast?.getD [] ++ text]

def physicalLines (segments : List LogicalRecordSegment) : List Text :=
  segments.foldl addSegment []

theorem join_concat {sep : Text} {lines : List Text} (h : lines ≠ []) (line : Text) :
    join sep (lines ++ [line]) = join sep lines ++ sep ++ line := by
  induction lines with
  | nil => exact absurd rfl h
  | cons first rest ih =>
    cases rest with
    | nil => rfl
    | cons next rest =>
      have hrest := ih (List.cons_ne_nil _ _)
      show first ++ sep ++ join sep ((next :: rest) ++ [line]) =
        first ++ sep ++ join sep (next :: rest) ++ sep ++ line
      rw [hrest]
      simp only [List.append_assoc]

theorem join_append_last {sep : Text} (lines : List Text) (line text : Text) :
    join sep (lines ++ [line ++ text]) = join sep (lines ++ [line]) ++ text := by
  cases lines with
  | nil => rfl
  | cons first rest =>
    rw [join_concat (List.cons_ne_nil _ _), join_concat (List.cons_ne_nil _ _),
      List.append_assoc _ line text]

/-- The state between two segments: a record is held as soon as a line has begun. -/
structure Framed (s : Framing) (lines : List Text) : Prop where
  sound : Sound s (join ['\n'] lines)
  begun : s.pendingRecord.isSome = !lines.isEmpty

theorem isSome_appendBounded (s : Framing) (text : Text) :
    (appendBounded s text).pendingRecord.isSome = true := rfl

theorem framed_start (observed : Nat) : Framed { maxPendingBytesObserved := observed } [] where
  sound :=
    { bounded := fun r hr => absurd hr List.not_mem_nil
      held    := fun record hrecord => by cases hrecord
      kinds   := fun r hr => absurd hr List.not_mem_nil
      counted := rfl
      written := rfl }
  begun := rfl

theorem completePending_none {s : Framing} (h : s.pendingRecord = none) :
    completePending s = s := by
  rw [completePending, h]

theorem pendingRecord_completePending (s : Framing) : (completePending s).pendingRecord = none := by
  rw [completePending]
  cases h : s.pendingRecord with
  | none => exact h
  | some record => rfl

theorem sound_first {s : Framing} {text : Text} (h : Sound s text) (hnone : s.pendingRecord = none)
    (line : Text) :
    Sound (appendBounded { s with pendingRecord := some [] } line) (text ++ line) := by
  have hstart := h.start
  rw [hnone, Option.getD_none] at hstart
  exact appendBounded_sound hstart line

theorem frameSegment_start (host : Host) (dialect : DeviceInventoryLogDialect) {s : Framing}
    {lines : List Text} (h : Framed s lines) (rawLine : Text) :
    Framed (frameSegment host dialect s (.lineStart rawLine)) (lines ++ [trimEndCr rawLine]) := by
  have hbegun : (lines ++ [trimEndCr rawLine]).isEmpty = false := by
    rw [List.isEmpty_eq_false_iff]
    exact List.append_ne_nil_of_right_ne_nil _ (List.cons_ne_nil _ _)
  cases hpending : s.pendingRecord with
  | none =>
    have hempty : lines = [] := by
      have hbegun := h.begun
      cases lines with
      | nil => rfl
      | cons first rest =>
        rw [hpending] at hbegun
        cases hbegun
    have hframe : frameSegment host dialect s (.lineStart rawLine) =
        appendBounded { s with pendingRecord := some [] } (trimEndCr rawLine) := by
      rw [frameSegment, completePending_none hpending, ite_self, hpending]
      rfl
    have hsound := sound_first h.sound hpending (trimEndCr rawLine)
    rw [hempty] at hsound hbegun ⊢
    rw [hframe]
    exact ⟨hsound, by rw [hbegun, isSome_appendBounded]; rfl⟩
  | some record =>
    have hne : lines ≠ [] := by
      rintro rfl
      have hbegun := h.begun
      rw [hpending] at hbegun
      cases hbegun
    refine ⟨?_, ?_⟩
    · rw [join_concat hne, frameSegment]
      by_cases hheader : isRecordHeader host dialect (trimEndCr rawLine) = true
      · -- the header completes the record that is held
        have hnone := pendingRecord_completePending s
        rw [if_pos hheader, hnone, Option.isSome_none, if_neg Bool.false_ne_true]
        exact sound_first (h.sound.complete hpending) hnone _
      · rw [if_neg hheader, hpending, if_pos Option.isSome_some]
        exact appendBounded_sound (appendBounded_sound h.sound _) _
    · rw [hbegun, frameSegment]
      split_ifs
      · rfl
      · rfl
      · rfl
      · rfl

theorem frameSegment_continuation (host : Host) (dialect : DeviceInventoryLogDialect) {s : Framing}
    {lines : List Text} (h : Framed s lines) (text : Text) :
    Framed (frameSegment host dialect s (.lineContinuation text))
      (addSegment lines (.lineContinuation text)) := by
  have hlines : join ['\n'] (addSegment lines (.lineContinuation text)) =
      join ['\n'] lines ++ text := by
    rcases List.eq_nil_or_concat lines with rfl | ⟨init, last, rfl⟩
    · rfl
    · rw [addSegment, List.concat_eq_append, List.dropLast_concat, List.getLast?_concat,
        Option.getD_some, join_append_last]
  refine ⟨?_, ?_⟩
  · rw [hlines, frameSegment]
    exact appendBounded_sound h.sound.start text
  · have hne : (addSegment lines (.lineContinuation text)).isEmpty = false := by
      rw [List.isEmpty_eq_false_iff]
      exact List.append_ne_nil_of_right_ne_nil _ (List.cons_ne_nil _ _)
    rw [hne]
    rfl

theorem framed_foldl (host : Host) (dialect : DeviceInventoryLogDialect) {s : Framing}
    {lines : List Text} (h : Framed s lines) (segments : List LogicalRecordSegment) :
    Framed (segments.foldl (frameSegment host dialect) s) (segments.foldl addSegment lines) := by
  induction segments generalizing s lines with
  | nil => exact h
  | cons segment segments ih =>
    rw [List.foldl_cons, List.foldl_cons]
    cases segment with
    | lineStart rawLine => exact ih (frameSegment_start host dialect h rawLine)
    | lineContinuation text => exact ih (frameSegment_continuation host dialect h text)

/-! ## What is framed -/

/-- Contents with a line feed after each record that ends at a record boundary, but
for the last. -/
def rejoin : List FramedLogicalRecord → Text
  | []        => []
  | [r]       => r.content
  | r :: rest => withBreak r ++ rejoin rest

theorem rejoin_concat (records : List FramedLogicalRecord) (last : FramedLogicalRecord) :
    rejoin (records ++ [last]) = records.flatMap withBreak ++ last.content := by
  induction records with
  | nil => rfl
  | cons r rest ih =>
    have hcons : rejoin (r :: (rest ++ [last])) = withBreak r ++ rejoin (rest ++ [last]) := by
      cases rest with
      | nil => rfl
      | cons next rest => rfl
    rw [List.cons_append, hcons, ih, List.flatMap_cons, List.append_assoc]

theorem count_withBreak {records : List FramedLogicalRecord}
    (h : ∀ r ∈ records, r = split r.content ∨ r = FramedLogicalRecord.complete r.content) :
    (records.flatMap withBreak).count '\n' = (records.map (·.physicalLines)).sum := by
  induction records with
  | nil => rfl
  | cons r rest ih =>
    have hr : (withBreak r).count '\n' = r.physicalLines := by
      rcases h r List.mem_cons_self with hr | hr
      · rw [hr, withBreak_split]
        rfl
      · rw [hr, withBreak_complete, List.count_append]
        rfl
    rw [List.flatMap_cons, List.count_append, hr,
      ih fun r' hr' => h r' (List.mem_cons_of_mem r hr'), List.map_cons, List.sum_cons]

theorem count_join {lines : List Text} (h : lines ≠ []) :
    (join ['\n'] lines).count '\n' + 1 = lines.length + (lines.map (List.count '\n')).sum := by
  induction lines with
  | nil => exact absurd rfl h
  | cons line rest ih =>
    cases rest with
    | nil =>
      show line.count '\n' + 1 = 1 + (line.count '\n' + 0)
      omega
    | cons next rest =>
      have hrest := ih (List.cons_ne_nil _ _)
      show (line ++ ['\n'] ++ join ['\n'] (next :: rest)).count '\n' + 1 = _
      rw [List.count_append, List.count_append, List.length_cons, List.map_cons, List.sum_cons,
        List.count_singleton_self]
      omega

def isLineStart : LogicalRecordSegment → Bool
  | .lineStart _        => true
  | .lineContinuation _ => false

def segmentText : LogicalRecordSegment → Text
  | .lineStart text        => text
  | .lineContinuation text => text

theorem count_trimEndCr (s : Text) : (trimEndCr s).count '\n' = s.count '\n' := by
  have hsplit : trimEndCr s ++ s.rtakeWhile (· = '\r') = s := List.rdropWhile_append_rtakeWhile
  have hnone : (s.rtakeWhile (· = '\r')).count '\n' = 0 := by
    rw [List.count_eq_zero]
    intro hmem
    have hreturn := List.mem_rtakeWhile_imp hmem
    cases of_decide_eq_true hreturn
  have hcount := congrArg (List.count '\n') hsplit
  rw [List.count_append, hnone, Nat.add_zero] at hcount
  exact hcount

theorem addSegment_counts {lines : List Text} (segment : LogicalRecordSegment)
    (h : lines ≠ [] ∨ isLineStart segment = true) :
    (addSegment lines segment).length = lines.length + (if isLineStart segment then 1 else 0) ∧
    ((addSegment lines segment).map (List.count '\n')).sum =
      (lines.map (List.count '\n')).sum + (segmentText segment).count '\n' := by
  cases segment with
  | lineStart rawLine =>
    rw [addSegment, List.length_append, List.map_append, List.sum_append, segmentText]
    refine ⟨rfl, ?_⟩
    rw [List.map_singleton, List.sum_singleton, count_trimEndCr]
  | lineContinuation text =>
    have hne : lines ≠ [] := h.resolve_right Bool.false_ne_true
    rcases List.eq_nil_or_concat lines with rfl | ⟨init, last, rfl⟩
    · exact absurd rfl hne
    · rw [addSegment, List.concat_eq_append, List.dropLast_concat, List.getLast?_concat,
        Option.getD_some, List.length_append, List.length_append, List.map_append, List.map_append,
        List.sum_append, List.sum_append, List.map_singleton, List.map_singleton,
        List.sum_singleton, List.sum_singleton, List.count_append, segmentText]
      exact ⟨rfl, (Nat.add_assoc _ _ _).symm⟩

theorem foldl_addSegment_counts {lines : List Text} (segments : List LogicalRecordSegment)
    (h : lines ≠ []) :
    segments.foldl addSegment lines ≠ [] ∧
    (segments.foldl addSegment lines).length = lines.length + segments.countP isLineStart ∧
    ((segments.foldl addSegment lines).map (List.count '\n')).sum =
      (lines.map (List.count '\n')).sum +
        (segments.map fun segment => (segmentText segment).count '\n').sum := by
  induction segments generalizing lines with
  | nil => exact ⟨h, rfl, rfl⟩
  | cons segment segments ih =>
    obtain ⟨hlength, hsum⟩ := addSegment_counts segment (Or.inl h)
    have hne : addSegment lines segment ≠ [] := by
      intro hnil
      have hpos := List.length_pos_iff.mpr h
      rw [hnil, List.length_nil] at hlength
      omega
    obtain ⟨hfold, hlengths, hsums⟩ := ih hne
    rw [List.foldl_cons, List.countP_cons, List.map_cons, List.sum_cons]
    refine ⟨hfold, ?_, ?_⟩
    · rw [hlengths, hlength]
      omega
    · rw [hsums, hsum]
      omega

/-! ## Two calls -/

/-- Framing that completed `earlier` in a call before. -/
structure Continues (earlier : List FramedLogicalRecord) (whole later : Framing) : Prop where
  completed : whole.completedRecords = earlier ++ later.completedRecords
  pending : whole.pendingRecord = later.pendingRecord

namespace Continues

variable {earlier : List FramedLogicalRecord} {whole later : Framing}

theorem appendRounds (fuel : Nat) (text : Text) (h : Continues earlier whole later) :
    Continues earlier (appendRounds fuel whole text) (appendRounds fuel later text) := by
  induction fuel generalizing whole later text with
  | zero => exact h
  | succ fuel ih =>
    have havailable : whole.available = later.available := by
      rw [Framing.available, h.pending, Framing.available]
    rw [Inventory.appendRounds, Inventory.appendRounds]
    by_cases hnil : text = []
    · rw [if_pos hnil, if_pos hnil]
      exact h
    · rw [if_neg hnil, if_neg hnil]
      dsimp only
      rw [havailable, h.pending]
      by_cases hrest : dropBytes later.available text = []
      · rw [if_pos hrest, if_pos hrest]
        exact ⟨h.completed, rfl⟩
      · rw [if_neg hrest, if_neg hrest]
        apply ih
        refine ⟨?_, rfl⟩
        show whole.completedRecords ++ _ = _
        rw [h.completed, List.append_assoc]

theorem start (record : Text) (h : Continues earlier whole later) :
    Continues earlier { whole with pendingRecord := some record }
      { later with pendingRecord := some record } :=
  ⟨h.completed, rfl⟩

theorem appendBounded (text : Text) (h : Continues earlier whole later) :
    Continues earlier (appendBounded whole text) (appendBounded later text) := by
  have hrounds := h.appendRounds (text.length + 2) text
  refine ⟨hrounds.completed, ?_⟩
  show some _ = some _
  rw [hrounds.pending]

theorem completePending (h : Continues earlier whole later) :
    Continues earlier (completePending whole) (completePending later) := by
  rw [Inventory.completePending, Inventory.completePending, h.pending]
  cases hpending : later.pendingRecord with
  | none => exact h
  | some record =>
    refine ⟨?_, rfl⟩
    show whole.completedRecords ++ _ = _
    rw [h.completed, List.append_assoc]

theorem appendLine (line : Text) (h : Continues earlier whole later) :
    Continues earlier
      (if whole.pendingRecord.isSome then
          Inventory.appendBounded (Inventory.appendBounded whole ['\n']) line
        else Inventory.appendBounded { whole with pendingRecord := some [] } line)
      (if later.pendingRecord.isSome then
          Inventory.appendBounded (Inventory.appendBounded later ['\n']) line
        else Inventory.appendBounded { later with pendingRecord := some [] } line) := by
  rw [h.pending]
  by_cases hsome : later.pendingRecord.isSome = true
  · rw [if_pos hsome, if_pos hsome]
    exact (h.appendBounded _).appendBounded _
  · rw [if_neg hsome, if_neg hsome]
    exact (h.start []).appendBounded _

theorem frameSegment (host : Host) (dialect : DeviceInventoryLogDialect)
    (segment : LogicalRecordSegment) (h : Continues earlier whole later) :
    Continues earlier (frameSegment host dialect whole segment)
      (frameSegment host dialect later segment) := by
  cases segment with
  | lineStart rawLine =>
    rw [Inventory.frameSegment, Inventory.frameSegment]
    by_cases hheader : isRecordHeader host dialect (trimEndCr rawLine) = true
    · rw [if_pos hheader, if_pos hheader]
      exact h.completePending.appendLine _
    · rw [if_neg hheader, if_neg hheader]
      exact h.appendLine _
  | lineContinuation text =>
    rw [Inventory.frameSegment, Inventory.frameSegment, h.pending]
    exact (h.start _).appendBounded text

theorem foldl (host : Host) (dialect : DeviceInventoryLogDialect)
    (segments : List LogicalRecordSegment) (h : Continues earlier whole later) :
    Continues earlier (segments.foldl (Inventory.frameSegment host dialect) whole)
      (segments.foldl (Inventory.frameSegment host dialect) later) := by
  induction segments generalizing whole later with
  | nil => exact h
  | cons segment segments ih => exact ih (h.frameSegment host dialect segment)

theorem flushPending (h : Continues earlier whole later) :
    whole.flushPending = earlier ++ later.flushPending := by
  rw [Framing.flushPending, Framing.flushPending, h.completed, h.pending, List.append_assoc]

end Continues

/-! ## The records of a list of segments -/

theorem frameLogicalRecords_none (host : Host) (dialect : DeviceInventoryLogDialect)
    (segments : List LogicalRecordSegment) :
    frameLogicalRecords host dialect none segments =
      some (segments.foldl (frameSegment host dialect) {}) := rfl

theorem framed_segments (host : Host) (dialect : DeviceInventoryLogDialect)
    (segments : List LogicalRecordSegment) :
    Framed (segments.foldl (frameSegment host dialect) {}) (physicalLines segments) :=
  framed_foldl host dialect (framed_start 0) segments

theorem frameLogicalRecords_twice (host : Host) (dialect : DeviceInventoryLogDialect)
    {earlier later : List LogicalRecordSegment} {first : Framing}
    (hfirst : frameLogicalRecords host dialect none earlier = some first) :
    ∃ second whole,
      frameLogicalRecords host dialect first.pendingRecord later = some second ∧
      frameLogicalRecords host dialect none (earlier ++ later) = some whole ∧
      whole.flushPending = first.completedRecords ++ second.flushPending := by
  rw [frameLogicalRecords_none] at hfirst
  obtain rfl := Option.some.inj hfirst
  set first := earlier.foldl (frameSegment host dialect) {}
  have hheld : (first.pendingRecord.map byteLen).getD 0 ≤ maxLogicalRecordBytes := by
    have hsound := (framed_segments host dialect earlier).sound
    cases hpending : first.pendingRecord with
    | none => exact Nat.zero_le _
    | some record => exact hsound.held record hpending
  have hcontinues : Continues first.completedRecords first
      { pendingRecord           := first.pendingRecord
        maxPendingBytesObserved := (first.pendingRecord.map byteLen).getD 0 } :=
    ⟨(List.append_nil _).symm, rfl⟩
  refine ⟨_, _, if_neg (Nat.not_lt.mpr hheld), frameLogicalRecords_none host dialect _, ?_⟩
  rw [List.foldl_append]
  exact (hcontinues.foldl host dialect later).flushPending

theorem physicalLines_counts (first : Text) (rest : List LogicalRecordSegment) :
    physicalLines (.lineStart first :: rest) ≠ [] ∧
    (physicalLines (.lineStart first :: rest)).length =
      (LogicalRecordSegment.lineStart first :: rest).countP isLineStart ∧
    ((physicalLines (.lineStart first :: rest)).map (List.count '\n')).sum =
      ((LogicalRecordSegment.lineStart first :: rest).map
        fun segment => (segmentText segment).count '\n').sum := by
  obtain ⟨hlength, hsum⟩ := @addSegment_counts [] (.lineStart first) (Or.inr rfl)
  obtain ⟨hne, hlengths, hsums⟩ := foldl_addSegment_counts rest
    (List.cons_ne_nil (trimEndCr first) [])
  refine ⟨hne, ?_, ?_⟩
  · rw [List.countP_cons, Nat.add_comm]
    exact hlengths
  · rw [List.map_cons, List.sum_cons]
    exact hsums.trans (by
      rw [List.map_singleton, List.sum_singleton, count_trimEndCr]
      rfl)

theorem flushPending_spec {s : Framing} {lines : List Text} (h : Framed s lines)
    (hne : lines ≠ []) :
    ∃ record, s.flushPending = s.completedRecords ++ [FramedLogicalRecord.complete record] ∧
      byteLen record ≤ maxLogicalRecordBytes ∧
      s.completedRecords.flatMap withBreak ++ record = join ['\n'] lines := by
  have hbegun := h.begun
  rw [List.isEmpty_eq_false_iff.mpr hne, Bool.not_false, Option.isSome_iff_exists] at hbegun
  obtain ⟨record, hpending⟩ := hbegun
  have hwritten := h.sound.written
  rw [hpending, Option.getD_some] at hwritten
  refine ⟨record, ?_, h.sound.held record hpending, hwritten⟩
  rw [Framing.flushPending, hpending]
  rfl

/-- Framing loses nothing, keeps the bound and accounts for every line; two calls give
the records of one. -/
theorem framing_lossless (host : Host) (dialect : DeviceInventoryLogDialect) (first : Text)
    (rest : List LogicalRecordSegment) :
    ∃ framed,
      frameLogicalRecords host dialect none (.lineStart first :: rest) = some framed ∧
      (∀ r ∈ framed.flushPending, byteLen r.content ≤ maxLogicalRecordBytes) ∧
      (∀ r ∈ framed.flushPending,
        r = split r.content ∨ r = FramedLogicalRecord.complete r.content) ∧
      rejoin framed.flushPending = join ['\n'] (physicalLines (.lineStart first :: rest)) ∧
      (framed.flushPending.map (·.physicalLines)).sum =
        (LogicalRecordSegment.lineStart first :: rest).countP isLineStart +
        ((LogicalRecordSegment.lineStart first :: rest).map
          fun segment => (segmentText segment).count '\n').sum ∧
      framed.overflowCount = min (framed.flushPending.countP isSplit) u32Max ∧
      ∀ n, ∃ earlier later,
        frameLogicalRecords host dialect none
          ((LogicalRecordSegment.lineStart first :: rest).take n) = some earlier ∧
        frameLogicalRecords host dialect earlier.pendingRecord
          ((LogicalRecordSegment.lineStart first :: rest).drop n) = some later ∧
        framed.flushPending = earlier.completedRecords ++ later.flushPending := by
  obtain ⟨hne, hlength, hsum⟩ := physicalLines_counts first rest
  have hframed := framed_segments host dialect (.lineStart first :: rest)
  obtain ⟨record, hflush, hheld, hwritten⟩ := flushPending_spec hframed hne
  refine ⟨_, frameLogicalRecords_none host dialect _, ?_, ?_, ?_, ?_, ?_, ?_⟩
  · intro r hr
    rw [hflush] at hr
    rcases List.mem_append.mp hr with hr | hr
    · exact hframed.sound.bounded r hr
    · rw [List.mem_singleton.mp hr]
      exact hheld
  · intro r hr
    rw [hflush] at hr
    rcases List.mem_append.mp hr with hr | hr
    · exact hframed.sound.kinds r hr
    · rw [List.mem_singleton.mp hr]
      exact Or.inr rfl
  · rw [hflush, rejoin_concat]
    exact hwritten
  · have hcount := congrArg (List.count '\n') hwritten
    have hjoin := count_join hne
    rw [List.count_append, count_withBreak hframed.sound.kinds] at hcount
    rw [hlength, hsum] at hjoin
    rw [hflush, List.map_append, List.sum_append, List.map_singleton, List.sum_singleton]
    show _ + (record.count '\n' + 1) = _
    omega
  · rw [hflush, List.countP_append, List.countP_singleton, isSplit_complete,
      if_neg Bool.false_ne_true, Nat.add_zero]
    exact hframed.sound.counted
  · intro n
    obtain ⟨later, whole, hlater, hwhole, hrecords⟩ := frameLogicalRecords_twice host dialect
      (frameLogicalRecords_none host dialect
        ((LogicalRecordSegment.lineStart first :: rest).take n))
    rw [List.take_append_drop, frameLogicalRecords_none] at hwhole
    refine ⟨_, later, frameLogicalRecords_none host dialect _, hlater, ?_⟩
    rw [Option.some.inj hwhole]
    exact hrecords

/-- A line feed inside a segment is one more line. -/
theorem framing_counts_line_feeds :
    ((frameLogicalRecords Host.ascii .harvester none [.lineStart ['a', '\n', 'b']]).map
      fun framed => (framed.flushPending.map (·.physicalLines)).sum) = some 2 ∧
    [LogicalRecordSegment.lineStart ['a', '\n', 'b']].countP isLineStart = 1 := by
  refine ⟨?_, rfl⟩
  have hnothing : completePending {} = {} := rfl
  rw [frameLogicalRecords_none, List.foldl_cons, List.foldl_nil, frameSegment, hnothing, ite_self]
  decide +kernel

end Inventory
end CmTrace
