import CmTrace.Text.Number
import Mathlib.Data.Finset.Card

/-!
# Lists of live tail diagnostics

A list keeps a bounded number of diagnostics.  Those past the bound are counted in a
summary that is its last entry; the entries before it stay as they are.
-/

namespace CmTrace
namespace LiveTail

open Text

def maxTailCoverageGaps : Nat := 256

def tailCoverageSummaryPrefix : Text := "<live tail coverage>: ".toList

def tailCoverageSummarySuffix : Text :=
  " additional live tail diagnostics were coalesced".toList

def usizeMax : Nat := 2 ^ 64 - 1

def summaryText (omitted : Nat) : Text :=
  tailCoverageSummaryPrefix ++ decimal omitted ++ tailCoverageSummarySuffix

/-- The number of diagnostics that an entry stands for as a summary. -/
def omittedCount? (entry : Text) : Option Nat :=
  (entry.dropPrefix? tailCoverageSummaryPrefix).bind fun summary =>
    (summary.dropSuffix? tailCoverageSummarySuffix).bind fun count =>
      parseUnsigned 10 usizeMax count

def pushBoundedTailCoverageGap (gaps : List Text) (gap : Text) : List Text :=
  if gaps.length < maxTailCoverageGaps - 1 then gaps ++ [gap]
  else if gaps.length = maxTailCoverageGaps - 1 then gaps ++ [summaryText 1]
  else
    match gaps.getLast? with
    | none => gaps
    | some summary =>
      match omittedCount? summary with
      | none => gaps.dropLast ++ [summaryText 2]
      | some omitted => gaps.dropLast ++ [summaryText (min (omitted + 1) usizeMax)]

def pushMissing (gaps : List Text) : List Text → List Text
  | [] => gaps
  | gap :: rest =>
    pushMissing (if gap ∈ gaps then gaps else pushBoundedTailCoverageGap gaps gap) rest

/-! ## Summaries -/

theorem omittedCount?_summaryText {omitted : Nat} (h : omitted ≤ usizeMax) :
    omittedCount? (summaryText omitted) = some omitted := by
  have hprefix : (summaryText omitted).dropPrefix? tailCoverageSummaryPrefix =
      some (decimal omitted ++ tailCoverageSummarySuffix) := by
    rw [summaryText, List.append_assoc]
    exact List.dropPrefix?_append_of_beq _ BEq.rfl
  have hsuffix : (decimal omitted ++ tailCoverageSummarySuffix).dropSuffix?
      tailCoverageSummarySuffix = some (decimal omitted) :=
    List.dropSuffix?_eq_some_iff.mpr ⟨_, rfl, BEq.rfl⟩
  rw [omittedCount?, hprefix, Option.bind_some, hsuffix, Option.bind_some,
    parseUnsigned_decimal h]

def isSummary (entry : Text) : Bool := (omittedCount? entry).isSome

/-- The number of diagnostics that the summaries of a list stand for. -/
def counted (gaps : List Text) : Nat := (gaps.map fun gap => (omittedCount? gap).getD 0).sum

theorem counted_append (a b : List Text) : counted (a ++ b) = counted a + counted b := by
  rw [counted, List.map_append, List.sum_append]
  rfl

theorem counted_cons (gap : Text) (gaps : List Text) :
    counted (gap :: gaps) = (omittedCount? gap).getD 0 + counted gaps := by
  rw [counted, List.map_cons, List.sum_cons]
  rfl

theorem counted_summaryText {omitted : Nat} (h : omitted ≤ usizeMax) :
    counted [summaryText omitted] = omitted := by
  rw [counted_cons, omittedCount?_summaryText h]
  rfl

/-! ## Bounded lists -/

def kept (gaps : List Text) : List Text := gaps.take (maxTailCoverageGaps - 1)

/-- A list with a summary where it is full. -/
structure Bounded (gaps : List Text) : Prop where
  length : gaps.length ≤ maxTailCoverageGaps
  summary : gaps.length = maxTailCoverageGaps →
    ∃ omitted ≤ usizeMax, gaps = kept gaps ++ [summaryText omitted]

theorem bounded_nil : Bounded [] := by
  refine ⟨Nat.zero_le _, fun h => ?_⟩
  cases h

theorem kept_of_lt {gaps : List Text} (h : gaps.length < maxTailCoverageGaps) :
    kept gaps = gaps := by
  refine List.take_of_length_le ?_
  rw [maxTailCoverageGaps] at *
  omega

theorem mem_of_mem_kept {gaps : List Text} {gap : Text} (h : gap ∈ kept gaps) : gap ∈ gaps :=
  List.mem_of_mem_take h

theorem Bounded.mem_kept {gaps : List Text} (h : Bounded gaps) {gap : Text} (hmem : gap ∈ gaps)
    (hplain : isSummary gap = false) : gap ∈ kept gaps := by
  rcases Nat.lt_or_eq_of_le h.length with hlt | heq
  · rwa [kept_of_lt hlt]
  · obtain ⟨omitted, hle, hgaps⟩ := h.summary heq
    rw [hgaps] at hmem
    rcases List.mem_append.mp hmem with hmem | hmem
    · exact hmem
    · rw [List.mem_singleton.mp hmem, isSummary, omittedCount?_summaryText hle] at hplain
      cases hplain

/-- What a push does: the entry is kept, or counted. -/
structure Pushed (gaps : List Text) (gap : Text) (gaps' : List Text) : Prop where
  bounded : Bounded gaps'
  keeps : kept gaps <+: kept gaps'
  entered : gap ∈ kept gaps' ∧ counted gaps' = counted gaps + (omittedCount? gap).getD 0 ∨
    ¬ gaps.length < maxTailCoverageGaps - 1 ∧ min usizeMax (counted gaps + 1) ≤ counted gaps'

theorem pushed_pushBounded {gaps : List Text} (h : Bounded gaps) (gap : Text) :
    Pushed gaps gap (pushBoundedTailCoverageGap gaps gap) := by
  have hone : 1 ≤ usizeMax := by decide
  unfold pushBoundedTailCoverageGap
  split_ifs with hroom hlast
  · have hlength : (gaps ++ [gap]).length < maxTailCoverageGaps := by
      rw [List.length_append, List.length_singleton]
      rw [maxTailCoverageGaps] at *
      omega
    refine ⟨⟨hlength.le, fun heq => absurd heq hlength.ne⟩, ?_, .inl ⟨?_, ?_⟩⟩
    · rw [kept_of_lt hlength, kept_of_lt (by rw [maxTailCoverageGaps] at *; omega)]
      exact List.prefix_append _ _
    · rw [kept_of_lt hlength]
      exact List.mem_append_right _ (List.mem_singleton.mpr rfl)
    · rw [counted_append, counted_cons]
      rfl
  · have hkept : kept (gaps ++ [summaryText 1]) = gaps := by
      rw [kept, ← hlast]
      exact List.take_left' rfl
    have hgaps : kept gaps = gaps := kept_of_lt (by rw [hlast]; decide)
    have hfull : (gaps ++ [summaryText 1]).length = maxTailCoverageGaps := by
      rw [List.length_append, hlast]
      rfl
    refine ⟨⟨hfull.le, fun _ => ⟨1, hone, by rw [hkept]⟩⟩, ?_, .inr ⟨hroom, ?_⟩⟩
    · rw [hkept, hgaps]
    · rw [counted_append, counted_summaryText hone]
      exact Nat.min_le_right _ _
  · have hfull : gaps.length = maxTailCoverageGaps := by
      have hle := h.length
      rw [maxTailCoverageGaps] at *
      omega
    obtain ⟨omitted, hle, hgaps⟩ := h.summary hfull
    have hkeptLength : (kept gaps).length = maxTailCoverageGaps - 1 := by
      rw [kept, List.length_take, hfull]
      decide
    have hgetLast : gaps.getLast? = some (summaryText omitted) := by
      rw [hgaps, List.getLast?_concat]
    have hdropLast : gaps.dropLast = kept gaps := by
      conv_lhs => rw [hgaps]
      exact List.dropLast_concat
    have hcounted : counted gaps = counted (kept gaps) + omitted := by
      conv_lhs => rw [hgaps]
      rw [counted_append, counted_summaryText hle]
    simp only [hgetLast, omittedCount?_summaryText hle, hdropLast]
    have hnext : min (omitted + 1) usizeMax ≤ usizeMax := Nat.min_le_right _ _
    have hkept : kept (kept gaps ++ [summaryText (min (omitted + 1) usizeMax)]) = kept gaps := by
      rw [kept]
      exact List.take_left' hkeptLength
    refine ⟨⟨?_, fun _ => ⟨_, hnext, by rw [hkept]⟩⟩, ?_, .inr ⟨hroom, ?_⟩⟩
    · rw [List.length_append, hkeptLength]
      exact Nat.le_refl _
    · rw [hkept]
    · rw [counted_append, counted_summaryText hnext, hcounted]
      omega

/-! ## Lists pushed into lists -/

/-- Every summary among the entries to push finds room for it and is not taken for one
that is there; those that are known are the ones that are there. -/
def keepsSummaries (known : Text → Bool) (gaps : List Text) : List Text → Bool
  | [] => true
  | gap :: rest =>
    (!isSummary gap || known gap ||
      (decide (gap ∉ gaps) && decide (gaps.length < maxTailCoverageGaps - 1))) &&
    keepsSummaries known (if gap ∈ gaps then gaps else pushBoundedTailCoverageGap gaps gap) rest

/-- What pushing a list does: its entries are kept, or counted, and so is what its
summaries stand for. -/
structure PushedAll (known : Text → Bool) (gaps pushed gaps' : List Text) : Prop where
  bounded : Bounded gaps'
  keeps : kept gaps <+: kept gaps'
  counts : ∃ lost, (∀ D : Finset Text, (∀ t ∈ D, t ∈ pushed ∧ t ∉ kept gaps') → D.card ≤ lost) ∧
    min usizeMax (counted gaps + counted (pushed.filter fun gap => !known gap) + lost) ≤
      counted gaps'

theorem omittedCount?_getD_of_plain {gap : Text} (h : isSummary gap = false) :
    (omittedCount? gap).getD 0 = 0 := by
  rw [isSummary, Option.isSome_eq_false_iff, Option.isNone_iff_eq_none] at h
  rw [h]
  rfl

theorem counted_filter_cons_le (known : Text → Bool) (gap : Text) (rest : List Text) :
    counted ((gap :: rest).filter fun gap => !known gap) ≤
      (omittedCount? gap).getD 0 + counted (rest.filter fun gap => !known gap) := by
  cases h : known gap with
  | true => rw [List.filter_cons_of_neg (by simp [h])]; omega
  | false => rw [List.filter_cons_of_pos (by simp [h]), counted_cons]

theorem card_erase_le {D : Finset Text} (gap : Text) {lost : Nat}
    (h : (D.erase gap).card ≤ lost) : D.card ≤ lost + 1 :=
  Nat.le_add_of_sub_le (Finset.pred_card_le_card_erase.trans h)

theorem pushedAll_pushMissing (known : Text → Bool) (pushed : List Text) {gaps : List Text}
    (h : Bounded gaps) (hknown : ∀ gap, known gap = true → gap ∈ kept gaps)
    (hkeeps : keepsSummaries known gaps pushed = true) :
    PushedAll known gaps pushed (pushMissing gaps pushed) := by
  induction pushed generalizing gaps with
  | nil =>
    refine ⟨h, List.prefix_refl _, 0, fun D hD => ?_, ?_⟩
    · refine (Finset.card_eq_zero.mpr (Finset.eq_empty_of_forall_notMem fun t ht => ?_)).le
      cases (hD t ht).1
    · exact Nat.min_le_right _ _
  | cons gap rest ih =>
    rw [keepsSummaries, Bool.and_eq_true] at hkeeps
    obtain ⟨hgap, hrest⟩ := hkeeps
    rw [pushMissing]
    by_cases hmem : gap ∈ gaps
    · -- the entry is there, and is no summary that is there by chance
      rw [if_pos hmem] at hrest ⊢
      have hstays : gap ∈ kept gaps ∧ counted ((gap :: rest).filter fun gap => !known gap) =
          counted (rest.filter fun gap => !known gap) := by
        cases hsummary : isSummary gap with
        | false =>
          refine ⟨h.mem_kept hmem hsummary, ?_⟩
          cases hk : known gap with
          | true => rw [List.filter_cons_of_neg (by simp [hk])]
          | false =>
            rw [List.filter_cons_of_pos (by simp [hk]), counted_cons,
              omittedCount?_getD_of_plain hsummary, Nat.zero_add]
        | true =>
          have hk : known gap = true := by
            simpa [hsummary, hmem] using hgap
          exact ⟨hknown gap hk, by rw [List.filter_cons_of_neg (by simp [hk])]⟩
      obtain ⟨hbounded, hkeeps, lost, hlost, hcounts⟩ := ih h hknown hrest
      refine ⟨hbounded, hkeeps, lost, fun D hD => hlost D fun t ht => ?_, ?_⟩
      · obtain ⟨htmem, htkept⟩ := hD t ht
        rcases List.mem_cons.mp htmem with rfl | htmem
        · exact absurd (hkeeps.subset hstays.1) htkept
        · exact ⟨htmem, htkept⟩
      · rw [hstays.2]
        exact hcounts
    · rw [if_neg hmem] at hrest ⊢
      obtain ⟨hbounded₁, hkeeps₁, hentered⟩ := pushed_pushBounded h gap
      obtain ⟨hbounded, hkeeps, lost, hlost, hcounts⟩ := ih hbounded₁
        (fun gap' hk => hkeeps₁.subset (hknown gap' hk)) hrest
      have hsplit := counted_filter_cons_le known gap rest
      rcases hentered with ⟨hin, hcounted⟩ | ⟨hfull, hcounted⟩
      · refine ⟨hbounded, hkeeps₁.trans hkeeps, lost, fun D hD => hlost D fun t ht => ?_, ?_⟩
        · obtain ⟨htmem, htkept⟩ := hD t ht
          rcases List.mem_cons.mp htmem with rfl | htmem
          · exact absurd (hkeeps.subset hin) htkept
          · exact ⟨htmem, htkept⟩
        · omega
      · -- only what is no summary comes upon a full list
        have hplain : isSummary gap = false := by
          by_contra hsummary
          rw [Bool.not_eq_false] at hsummary
          have hnot : ¬ known gap = true := fun hk => hmem (mem_of_mem_kept (hknown gap hk))
          simp only [hsummary, Bool.not_true, Bool.false_or, hnot, Bool.and_eq_true,
            decide_eq_true_eq] at hgap
          exact hfull hgap.2
        rw [omittedCount?_getD_of_plain hplain, Nat.zero_add] at hsplit
        refine ⟨hbounded, hkeeps₁.trans hkeeps, lost + 1, fun D hD => ?_, ?_⟩
        · refine card_erase_le gap (hlost _ fun t ht => ?_)
          obtain ⟨htne, ht⟩ := Finset.mem_erase.mp ht
          obtain ⟨htmem, htkept⟩ := hD t ht
          exact ⟨(List.mem_cons.mp htmem).resolve_left htne, htkept⟩
        · omega

theorem bounded_pushMissing (pushed : List Text) {gaps : List Text} (h : Bounded gaps) :
    Bounded (pushMissing gaps pushed) := by
  induction pushed generalizing gaps with
  | nil => exact h
  | cons gap rest ih =>
    rw [pushMissing]
    split_ifs
    · exact ih h
    · exact ih (pushed_pushBounded h gap).bounded

/-! ## Batches of a live tail

Rendered records and diagnostics wait in a pending batch.  A flush takes it, gives it a
sequence number and emits it with the diagnostics of batches that were not delivered
before; if this one is not delivered either, its diagnostics are kept for the next.
What is pushed meanwhile is pending for a later batch.
-/

def eventFetchBatch : Nat := 256

structure PendingTailBatch (R : Type) where
  records : List R := []
  coverageGaps : List Text := []
  deriving DecidableEq

structure EvtxTailBatch (R : Type) where
  sequence : Nat
  records : List R
  coverageGaps : List Text
  deriving DecidableEq

structure EvtxTailStatus where
  nextSequence : Nat
  coverageGaps : List Text
  deriving DecidableEq

/-- A batch as it was emitted, and whether the emission went through. -/
structure Emission (R : Type) where
  batch : EvtxTailBatch R
  delivered : Bool
  deriving DecidableEq

/-- A tail: its batcher, and what there was of it so far. -/
structure TailState (R : Type) where
  pending : PendingTailBatch R := {}
  /-- The sequence number of the next batch, which wraps. -/
  sequence : Nat := 0
  /-- The diagnostics that are stored for the next batch. -/
  coverageGaps : List Text := []
  /-- The batch of the flush that holds the emission lock. -/
  taken : Option (EvtxTailBatch R) := none
  emissions : List (Emission R) := []
  status : Option EvtxTailStatus := none
  rendered : List R := []
  texts : List Text := []
  deriving DecidableEq

inductive TailAction (R : Type) where
  | pushRendered (record : R) (gaps : List Text)
  | pushGap (gap : Text)
  /-- A flush takes what is pending. -/
  | take
  /-- The flush emits what it took, with an error if that is not delivered. -/
  | emit (error : Option Text)
  | stop

namespace PendingTailBatch

variable {R : Type}

def isFull (pending : PendingTailBatch R) : Bool :=
  decide (eventFetchBatch ≤ pending.records.length)

def isEmpty (pending : PendingTailBatch R) : Bool :=
  pending.records.isEmpty && pending.coverageGaps.isEmpty

def pushRendered (pending : PendingTailBatch R) (record : R) (gaps : List Text) :
    PendingTailBatch R where
  records := pending.records ++ [record]
  coverageGaps := gaps.foldl pushBoundedTailCoverageGap pending.coverageGaps

end PendingTailBatch

def deliveryGap (channel : Text) (sequence : Nat) (error : Text) : Text :=
  channel ++ ": live tail batch ".toList ++ decimal sequence ++ " was not delivered (".toList ++
    error ++ [')']

def mergeTailCoverageGaps (stored gaps : List Text) : List Text := pushMissing gaps stored

def rememberTailCoverageGaps (stored gaps : List Text) : List Text := pushMissing stored gaps

section

variable {R : Type} (channel : Text)

def emitTailEvent (s : TailState R) (batch : EvtxTailBatch R) (error : Option Text) :
    TailState R :=
  let merged := { batch with
    coverageGaps := mergeTailCoverageGaps s.coverageGaps batch.coverageGaps }
  match error with
  | some error =>
    let gap := deliveryGap channel batch.sequence error
    let remembered := rememberTailCoverageGaps s.coverageGaps merged.coverageGaps
    { s with
      coverageGaps := rememberTailCoverageGaps remembered [gap]
      taken := none
      emissions := s.emissions ++ [⟨merged, false⟩]
      texts := s.texts ++ [gap] }
  | none =>
    { s with
      coverageGaps := []
      taken := none
      emissions := s.emissions ++ [⟨merged, true⟩] }

/-- What an action makes of a tail, if it can happen. -/
def step (s : TailState R) (action : TailAction R) : Option (TailState R) :=
  if s.status.isSome then none
  else
    match action with
    | .pushRendered record gaps =>
      -- a batch that is full is flushed first, which takes it
      if s.pending.isFull then none
      else some { s with
        pending := s.pending.pushRendered record gaps
        rendered := s.rendered ++ [record]
        texts := s.texts ++ gaps }
    | .pushGap gap => some { s with
        pending := { s.pending with
          coverageGaps := pushBoundedTailCoverageGap s.pending.coverageGaps gap }
        texts := s.texts ++ [gap] }
    | .take =>
      if s.taken.isSome then none
      else if s.pending.isEmpty then some s
      else some { s with
        pending := {}
        sequence := (s.sequence + 1) % 2 ^ 64
        taken := some ⟨s.sequence, s.pending.records, s.pending.coverageGaps⟩ }
    | .emit error => s.taken.map fun batch => emitTailEvent channel s batch error
    | .stop =>
      -- the subscription is closed and flushed, and its worker has ended
      if s.taken.isSome || !s.pending.isEmpty then none
      else some { s with status := some ⟨s.sequence, s.coverageGaps⟩ }

/-- The states that a tail comes to by actions that meet a condition. -/
inductive Reached (may : TailState R → TailAction R → Prop) : TailState R → Prop
  | start : Reached may {}
  | step {s s' : TailState R} {action : TailAction R} (h : Reached may s) (hmay : may s action)
      (hstep : step channel s action = some s') : Reached may s'

end

/-! ## What an action can do -/

section

variable {R : Type} {channel : Text}

/-- The actions that go through, each with its guard and what it leaves. -/
inductive Stepped (channel : Text) (s : TailState R) : TailAction R → TailState R → Prop
  | pushRendered (record : R) (gaps : List Text) (hfull : s.pending.isFull = false) :
      Stepped channel s (.pushRendered record gaps) { s with
        pending := s.pending.pushRendered record gaps
        rendered := s.rendered ++ [record]
        texts := s.texts ++ gaps }
  | pushGap (gap : Text) :
      Stepped channel s (.pushGap gap) { s with
        pending := { s.pending with
          coverageGaps := pushBoundedTailCoverageGap s.pending.coverageGaps gap }
        texts := s.texts ++ [gap] }
  | takeNothing (htaken : s.taken = none) (hempty : s.pending.isEmpty = true) :
      Stepped channel s .take s
  | take (htaken : s.taken = none) (hempty : s.pending.isEmpty = false) :
      Stepped channel s .take { s with
        pending := {}
        sequence := (s.sequence + 1) % 2 ^ 64
        taken := some ⟨s.sequence, s.pending.records, s.pending.coverageGaps⟩ }
  | emit (batch : EvtxTailBatch R) (error : Option Text) (htaken : s.taken = some batch) :
      Stepped channel s (.emit error) (emitTailEvent channel s batch error)
  | stop (htaken : s.taken = none) (hempty : s.pending.isEmpty = true) :
      Stepped channel s .stop { s with status := some ⟨s.sequence, s.coverageGaps⟩ }

theorem stepped_of_step {s s' : TailState R} {action : TailAction R}
    (h : step channel s action = some s') : s.status = none ∧ Stepped channel s action s' := by
  unfold step at h
  split at h
  · cases h
  · rename_i hstatus
    refine ⟨Option.not_isSome_iff_eq_none.mp hstatus, ?_⟩
    cases action with
    | pushRendered record gaps =>
      dsimp only at h
      split_ifs at h with hfull
      cases h
      exact .pushRendered record gaps (Bool.eq_false_iff.mpr hfull)
    | pushGap gap =>
      cases h
      exact .pushGap gap
    | take =>
      dsimp only at h
      split_ifs at h with htaken hempty
      · cases h
        exact .takeNothing (Option.not_isSome_iff_eq_none.mp htaken) hempty
      · cases h
        exact .take (Option.not_isSome_iff_eq_none.mp htaken) (Bool.eq_false_iff.mpr hempty)
    | emit error =>
      obtain ⟨batch, htaken, rfl⟩ := Option.map_eq_some_iff.mp h
      exact .emit batch error htaken
    | stop =>
      dsimp only at h
      split_ifs at h with hbusy
      cases h
      rw [Bool.or_eq_true, not_or] at hbusy
      refine .stop (Option.not_isSome_iff_eq_none.mp hbusy.1) ?_
      simpa using hbusy.2

end

end LiveTail
end CmTrace
