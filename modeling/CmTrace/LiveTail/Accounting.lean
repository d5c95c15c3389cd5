import CmTrace.LiveTail.Runs

/-!
# Diagnostics that are not lost

When a tail stops, its status and the batches that went through have each diagnostic that
was pushed, or count it in a summary.  That is so as long as the lists that are pushed
into others have their summaries find room there: a summary that comes upon a full list
is one more diagnostic to that list, whatever it counts.
-/

namespace CmTrace
namespace LiveTail

open Text

section

variable {R : Type} {channel : Text}

def leftOut (texts : List Text) (lists : List (List Text)) : Finset Text :=
  texts.toFinset.filter fun t => ∀ gaps ∈ lists, t ∉ gaps

/-- What was pushed is in what was delivered or in the status, or summaries there count it. -/
def Reported (s : TailState R) : Prop :=
  ∀ status ∈ s.status, (leftOut s.texts (status.coverageGaps :: s.deliveredGaps)).card ≤
    ((status.coverageGaps :: s.deliveredGaps).map counted).sum

def summariesKept (s : TailState R) : TailAction R → Prop
  | .emit error => ∀ batch ∈ s.taken,
    let merged := mergeTailCoverageGaps s.coverageGaps batch.coverageGaps
    keepsSummaries (fun _ => false) batch.coverageGaps s.coverageGaps = true ∧
      (error.isSome = true →
        keepsSummaries (knownGaps s.coverageGaps merged) s.coverageGaps merged = true)
  | _ => True

def TailState.takenGaps (s : TailState R) : List Text :=
  (s.taken.map EvtxTailBatch.coverageGaps).getD []

def TailState.lists (s : TailState R) : List (List Text) :=
  s.pending.coverageGaps :: s.takenGaps :: s.coverageGaps :: s.deliveredGaps

theorem Covered.perm {texts : List Text} {lists lists' : List (List Text)} (h : Covered texts lists)
    (hperm : lists'.Perm lists) : Covered texts lists' := by
  refine h.mono (fun list hlist t ht => ⟨list, hperm.symm.subset hlist, ht⟩) ?_
  exact (hperm.map counted).sum_eq.ge

theorem Covered.cons_nil {texts : List Text} {lists : List (List Text)} (h : Covered texts lists) :
    Covered texts ([] :: lists) := by
  refine h.mono (fun list hlist t ht => ⟨list, List.mem_cons_of_mem _ hlist, ht⟩) ?_
  rw [List.map_cons, List.sum_cons]
  exact Nat.le_add_left _ _

theorem pushed_remembered {stored : List Text} (h : Bounded stored) (gap : Text)
    (hplain : isSummary gap = false) {texts : List Text} {lists : List (List Text)}
    (hcovered : Covered texts (stored :: lists)) :
    Covered (texts ++ [gap]) (rememberTailCoverageGaps stored [gap] :: lists) := by
  rw [rememberTailCoverageGaps, pushMissing, pushMissing]
  split_ifs with hmem
  · refine hcovered.replace [gap] 0 (fun D hD => ?_) ?_
    · refine (Finset.card_eq_zero.mpr (Finset.eq_empty_of_forall_notMem fun t ht => ?_)).le
      obtain ⟨hhere, hgone⟩ := hD t ht
      rcases hhere with hgap | ⟨list, hlist, hin⟩
      · rw [List.mem_singleton.mp hgap] at hgone
        exact hgone stored List.mem_cons_self (h.mem_kept hmem hplain)
      · exact hgone list hlist hin
    · omega
  · exact hcovered.pushed (pushed_pushBounded h gap)

theorem lists_of_taken {s : TailState R} {batch : EvtxTailBatch R} (htaken : s.taken = some batch) :
    s.lists =
      s.pending.coverageGaps :: batch.coverageGaps :: s.coverageGaps :: s.deliveredGaps := by
  rw [TailState.lists, TailState.takenGaps, htaken]
  rfl

theorem lists_delivered (s : TailState R) (batch : EvtxTailBatch R) :
    (emitTailEvent channel s batch none).lists = s.pending.coverageGaps :: [] :: [] ::
      (s.deliveredGaps ++ [mergeTailCoverageGaps s.coverageGaps batch.coverageGaps]) := by
  simp [TailState.lists, TailState.takenGaps, TailState.deliveredGaps, emitTailEvent]

theorem lists_notDelivered (s : TailState R) (batch : EvtxTailBatch R) (error : Text) :
    (emitTailEvent channel s batch (some error)).lists = s.pending.coverageGaps :: [] ::
      rememberTailCoverageGaps (rememberTailCoverageGaps s.coverageGaps
        (mergeTailCoverageGaps s.coverageGaps batch.coverageGaps))
        [deliveryGap channel batch.sequence error] :: s.deliveredGaps := by
  simp [TailState.lists, TailState.takenGaps, TailState.deliveredGaps, emitTailEvent]

theorem covered_emit {s : TailState R} {batch : EvtxTailBatch R} (hsound : Sound s)
    (h : Covered s.texts s.lists) (htaken : s.taken = some batch) (error : Option Text)
    (hkept : summariesKept s (.emit error)) :
    Covered (emitTailEvent channel s batch error).texts
      (emitTailEvent channel s batch error).lists := by
  obtain ⟨hkeptTaken, hkeptStored⟩ := hkept batch htaken
  have hbatch : Bounded batch.coverageGaps := by
    refine hsound.batches batch ?_
    rw [batches_of_taken htaken]
    exact List.mem_append_right _ (List.mem_singleton.mpr rfl)
  have hmerged := pushedAll_pushMissing (fun _ => false) s.coverageGaps hbatch
    (fun gap hgap => absurd hgap Bool.false_ne_true) hkeptTaken
  rw [lists_of_taken htaken] at h
  -- the two lists that an emission changes stand first
  have hfirst : Covered s.texts
      (batch.coverageGaps :: s.coverageGaps :: s.pending.coverageGaps :: s.deliveredGaps) := by
    refine h.perm ?_
    exact ((List.Perm.swap _ _ _).cons _).trans (List.Perm.swap _ _ _)
  cases error with
  | none =>
    rw [lists_delivered]
    refine (hfirst.delivered hmerged).cons_nil.cons_nil.perm ?_
    refine (List.Perm.swap _ _ _).trans (.cons _ ((List.Perm.swap _ _ _).trans (.cons _ ?_)))
    exact (List.perm_append_singleton _ _).cons _ |>.trans (List.Perm.swap _ _ _)
  | some error =>
    rw [lists_notDelivered]
    have hremembered := pushedAll_pushMissing _ (mergeTailCoverageGaps s.coverageGaps
      batch.coverageGaps) hsound.stored (fun gap hgap => ?_) (hkeptStored rfl)
    · have hstored := pushed_remembered hremembered.bounded _
        (isSummary_deliveryGap channel batch.sequence error) (hfirst.remembered hmerged hremembered)
      refine hstored.cons_nil.perm ?_
      exact (List.Perm.swap _ _ _).trans (.cons _ (List.Perm.swap _ _ _))
    · rw [knownGaps, Bool.and_eq_true, decide_eq_true_eq] at hgap
      exact hgap.1

theorem covered_step {s s' : TailState R} {action : TailAction R} (hsound : Sound s)
    (h : Covered s.texts s.lists) (hkept : summariesKept s action)
    (hstep : step channel s action = some s') : Covered s'.texts s'.lists := by
  obtain ⟨-, hstepped⟩ := stepped_of_step hstep
  cases hstepped with
  | pushRendered record gaps hfull => exact (h.foldl_pushed gaps hsound.pending).2
  | pushGap gap => exact h.pushed (pushed_pushBounded hsound.pending gap)
  | takeNothing htaken hempty => exact h
  | take htaken hempty =>
    rw [TailState.lists, TailState.takenGaps, htaken] at h
    exact h.perm (List.Perm.swap _ _ _)
  | emit batch error htaken => exact covered_emit hsound h htaken error hkept
  | stop htaken hempty => exact h

theorem covered_of_reached {s : TailState R} (h : Reached channel summariesKept s) :
    Covered s.texts s.lists := by
  induction h with
  | start => exact covered_nil _
  | step hreached hkept hstep ih => exact covered_step (sound_of_reached hreached) ih hkept hstep

theorem reported_of_covered {s : TailState R} (hsound : Sound s) (h : Covered s.texts s.lists)
    (htexts : s.texts.length ≤ usizeMax) : Reported s := by
  intro status hstatus
  obtain ⟨hgaps, htaken, hempty⟩ := hsound.stopped status hstatus
  rw [PendingTailBatch.isEmpty, Bool.and_eq_true, List.isEmpty_iff, List.isEmpty_iff] at hempty
  rw [hgaps]
  have hlists : s.lists = [] :: [] :: s.coverageGaps :: s.deliveredGaps := by
    rw [TailState.lists, TailState.takenGaps, htaken, hempty.2]
    rfl
  have hcard : (leftOut s.texts (s.coverageGaps :: s.deliveredGaps)).card ≤ usizeMax :=
    (Finset.card_filter_le _ _).trans ((List.toFinset_card_le _).trans htexts)
  have hleft : ∀ t ∈ leftOut s.texts (s.coverageGaps :: s.deliveredGaps), t ∈ s.texts ∧
      ∀ gaps ∈ s.coverageGaps :: s.deliveredGaps, t ∉ gaps := fun t ht =>
    (Finset.mem_filter.mp ht).imp_left List.mem_toFinset.mp
  have hcounts := h _ fun t ht => ⟨(hleft t ht).1, fun gaps hin hkept => ?_⟩
  · have hnil : counted [] = 0 := rfl
    rw [hlists, Nat.min_eq_right hcard, List.map_cons, List.map_cons, List.sum_cons, List.sum_cons,
      hnil, Nat.zero_add, Nat.zero_add] at hcounts
    exact hcounts
  · rw [hlists, List.mem_cons, List.mem_cons] at hin
    rcases hin with rfl | rfl | hin
    · cases hkept
    · cases hkept
    · exact (hleft t ht).2 gaps hin (mem_of_mem_kept hkept)

/-- The lists and the batches of a tail in every run, and what it reports in those whose
summaries find room. -/
theorem diagnostics_accounted (channel : Text) :
    (∀ s : TailState R, Reached channel (fun _ _ => True) s →
      (∀ batch ∈ s.batches, batch.coverageGaps.length ≤ maxTailCoverageGaps) ∧
      s.coverageGaps.length ≤ maxTailCoverageGaps ∧
      s.batches.map EvtxTailBatch.sequence = (List.range s.batches.length).map (· % 2 ^ 64) ∧
      s.rendered = s.batches.flatMap EvtxTailBatch.records ++ s.pending.records) ∧
    ∀ s : TailState R, Reached channel summariesKept s → s.texts.length ≤ usizeMax →
      Reported s := by
  refine ⟨fun s hreached => ?_, fun s hreached htexts => ?_⟩
  · have hsound := sound_of_reached hreached
    exact ⟨fun batch hbatch => (hsound.batches batch hbatch).length, hsound.stored.length,
      hsound.sequences, hsound.rendered⟩
  · exact reported_of_covered (sound_of_reached hreached) (covered_of_reached hreached) htexts

theorem diagnostics_accounted_retry : ∃ s : TailState Unit,
    Reached ['A'] summariesKept s ∧ s.status.isSome = true ∧ s.texts.length = 3 ∧ Reported s := by
  have hpushed : Reached ['A'] summariesKept _ := Reached.step (.start (R := Unit)) (by exact trivial)
    (show step ['A'] {} (.pushRendered () [['a'], ['b']]) = some _ from rfl)
  have htaken := hpushed.step (by exact trivial)
    (show step ['A'] _ .take = some _ from rfl)
  have hfailed := htaken.step (by rintro batch ⟨⟩; decide)
    (show step ['A'] _ (.emit (some ['e'])) = some _ from rfl)
  have hrepeated := hfailed.step (by exact trivial)
    (show step ['A'] _ (.pushRendered () []) = some _ from rfl)
  have hretaken := hrepeated.step (by exact trivial)
    (show step ['A'] _ .take = some _ from rfl)
  have hdelivered := hretaken.step (by rintro batch ⟨⟩; decide)
    (show step ['A'] _ (.emit none) = some _ from rfl)
  have hstopped := hdelivered.step (by exact trivial)
    (show step ['A'] _ .stop = some _ from rfl)
  exact ⟨_, hstopped, rfl, rfl, (diagnostics_accounted ['A']).2 _ hstopped (by decide)⟩

end

/-! ## A summary that is absorbed -/

theorem foldl_push_of_room (pushed : List Text) {gaps : List Text}
    (h : gaps.length + pushed.length < maxTailCoverageGaps) :
    pushed.foldl pushBoundedTailCoverageGap gaps = gaps ++ pushed := by
  induction pushed generalizing gaps with
  | nil => exact (List.append_nil gaps).symm
  | cons gap rest ih =>
    rw [List.length_cons] at h
    have hpush : pushBoundedTailCoverageGap gaps gap = gaps ++ [gap] :=
      if_pos (by omega)
    rw [List.foldl_cons, hpush, ih (by rw [List.length_append, List.length_singleton]; omega),
      List.append_assoc]
    rfl

theorem pushMissing_of_room (pushed : List Text) {gaps : List Text}
    (hnodup : (gaps ++ pushed).Nodup) (h : gaps.length + pushed.length < maxTailCoverageGaps)
    (rest : List Text) :
    pushMissing gaps (pushed ++ rest) = pushMissing (gaps ++ pushed) rest := by
  induction pushed generalizing gaps with
  | nil => rw [List.append_nil, List.nil_append]
  | cons gap more ih =>
    rw [List.length_cons] at h
    have hpush : pushBoundedTailCoverageGap gaps gap = gaps ++ [gap] :=
      if_pos (by omega)
    have hmissing : gap ∉ gaps := fun hmem =>
      (List.nodup_append.mp hnodup).2.2 gap hmem gap List.mem_cons_self rfl
    have hcons : gaps ++ gap :: more = gaps ++ [gap] ++ more := List.append_cons gaps gap more
    rw [hcons] at hnodup ⊢
    rw [List.cons_append, pushMissing, if_neg hmissing, hpush,
      ih hnodup (by rw [List.length_append, List.length_singleton]; omega)]

theorem push_to_full {gaps : List Text} (h : gaps.length = maxTailCoverageGaps - 1) (a b : Text) :
    pushBoundedTailCoverageGap (pushBoundedTailCoverageGap gaps a) b = gaps ++ [summaryText 2] := by
  have hone : pushBoundedTailCoverageGap gaps a = gaps ++ [summaryText 1] := by
    rw [pushBoundedTailCoverageGap, if_neg h.not_lt, if_pos h]
  have hlength : (gaps ++ [summaryText 1]).length = maxTailCoverageGaps := by
    rw [List.length_append, h]
    rfl
  rw [hone, pushBoundedTailCoverageGap, hlength, if_neg (by decide), if_neg (by decide),
    List.getLast?_concat]
  simp only [omittedCount?_summaryText (show 1 ≤ usizeMax by decide), List.dropLast_concat]
  rfl

def letterTexts (n : Nat) : List Text := (List.range n).map fun i => List.replicate i 'x'

theorem nodup_letterTexts (n : Nat) : (letterTexts n).Nodup := by
  refine List.nodup_range.map fun i j hij => ?_
  have hlength := congrArg List.length hij
  rwa [List.length_replicate, List.length_replicate] at hlength

theorem counted_letterTexts (n : Nat) : counted (letterTexts n) = 0 := by
  refine List.sum_eq_zero fun omitted homitted => ?_
  obtain ⟨gap, hgap, rfl⟩ := List.mem_map.mp homitted
  obtain ⟨i, -, rfl⟩ := List.mem_map.mp hgap
  cases i with
  | zero => rfl
  | succ i =>
    -- the prefix of a summary begins with another letter
    rfl

theorem length_letterTexts (n : Nat) : (letterTexts n).length = n := by
  rw [letterTexts, List.length_map, List.length_range]

theorem cons_not_mem_letterTexts {n : Nat} {c : Char} {t : Text} (h : c ≠ 'x') :
    c :: t ∉ letterTexts n := by
  intro hmem
  obtain ⟨i, -, hi⟩ := List.mem_map.mp hmem
  exact h (List.eq_of_mem_replicate (hi ▸ List.mem_cons_self))

theorem replicate_mem_letterTexts {n i : Nat} :
    List.replicate i 'x' ∈ letterTexts n ↔ i < n := by
  refine ⟨fun hmem => ?_, fun h => List.mem_map.mpr ⟨i, List.mem_range.mpr h, rfl⟩⟩
  obtain ⟨j, hj, hij⟩ := List.mem_map.mp hmem
  have hlength := congrArg List.length hij
  rw [List.length_replicate, List.length_replicate] at hlength
  exact hlength ▸ List.mem_range.mp hj

/-- What is stored of a batch that has two diagnostics more than a list takes, and is not
delivered. -/
theorem remembered_of_full {plain : List Text} (hlength : plain.length = maxTailCoverageGaps - 1)
    (hnodup : plain.Nodup) (hsummaries : ∀ omitted, summaryText omitted ∉ plain) {gap : Text}
    (hgap : gap ∉ plain) (hsummary : isSummary gap = false) (a b : Text) :
    rememberTailCoverageGaps (rememberTailCoverageGaps [] (mergeTailCoverageGaps []
      ((plain ++ [a, b]).foldl pushBoundedTailCoverageGap []))) [gap] =
      plain ++ [summaryText 2] := by
  have hroom : ([] : List Text).length + plain.length < maxTailCoverageGaps := by
    rw [hlength]
    decide
  have hpushed : (plain ++ [a, b]).foldl pushBoundedTailCoverageGap [] =
      plain ++ [summaryText 2] := by
    rw [List.foldl_append, foldl_push_of_room plain hroom, List.nil_append]
    exact push_to_full hlength a b
  have habsorbed : pushBoundedTailCoverageGap plain (summaryText 2) = plain ++ [summaryText 1] := by
    rw [pushBoundedTailCoverageGap, if_neg hlength.not_lt, if_pos hlength]
  have hstored : rememberTailCoverageGaps [] (plain ++ [summaryText 2]) =
      pushBoundedTailCoverageGap plain (summaryText 2) := by
    rw [rememberTailCoverageGaps, @pushMissing_of_room plain [] hnodup hroom [summaryText 2],
      List.nil_append, pushMissing, if_neg (hsummaries 2), pushMissing]
  have hmissing : gap ∉ pushBoundedTailCoverageGap plain (summaryText 2) := by
    rw [habsorbed, List.mem_append, List.mem_singleton, not_or]
    refine ⟨hgap, fun heq => ?_⟩
    rw [heq, isSummary, omittedCount?_summaryText (by decide)] at hsummary
    cases hsummary
  rw [hpushed, mergeTailCoverageGaps, pushMissing, hstored, rememberTailCoverageGaps, pushMissing,
    if_neg hmissing, pushMissing]
  exact push_to_full hlength _ _

theorem reached_of_full {plain : List Text} (hlength : plain.length = maxTailCoverageGaps - 1)
    (hnodup : plain.Nodup) (hsummaries : ∀ omitted, summaryText omitted ∉ plain)
    {channel error : Text} (hgap : deliveryGap channel 0 error ∉ plain) (a b : Text) :
    ∃ s : TailState Unit, Reached channel (fun _ _ => True) s ∧
      s.texts = plain ++ [a, b] ++ [deliveryGap channel 0 error] ∧ s.deliveredGaps = [] ∧
      s.status = some ⟨1, plain ++ [summaryText 2]⟩ := by
  have hpushed : Reached channel (fun _ _ => True) _ := Reached.step (.start (R := Unit)) trivial
    (show step channel {} (.pushRendered () (plain ++ [a, b])) = some _ from rfl)
  have htaken := hpushed.step trivial (show step channel _ .take = some _ from rfl)
  have hfailed := htaken.step trivial (show step channel _ (.emit (some error)) = some _ from rfl)
  have hstopped := hfailed.step trivial (show step channel _ .stop = some _ from rfl)
  refine ⟨_, hstopped, rfl, rfl, ?_⟩
  have hremembered := remembered_of_full hlength hnodup hsummaries hgap
    (isSummary_deliveryGap channel 0 error) a b
  exact congrArg (fun gaps => some (EvtxTailStatus.mk 1 gaps)) hremembered

/-- A full batch is not delivered: the status counts two, and three are left out. -/
theorem full_batch_absorbed : ∃ s : TailState Unit,
    Reached ['A'] (fun _ _ => True) s ∧ s.texts.length = 258 ∧ ¬ Reported s := by
  have hgap : deliveryGap ['A'] 0 ['e'] ∉ letterTexts 255 := cons_not_mem_letterTexts (by decide)
  obtain ⟨s, hreached, htexts, hdelivered, hstatus⟩ := reached_of_full (length_letterTexts 255)
    (nodup_letterTexts 255) (fun omitted => cons_not_mem_letterTexts (by decide)) hgap
    (List.replicate 255 'x') (List.replicate 256 'x')
  refine ⟨s, hreached, ?_, fun hreported => ?_⟩
  · rw [htexts, List.length_append, List.length_append, length_letterTexts]
    rfl
  · have hle := hreported _ hstatus
    rw [htexts, hdelivered, List.map_singleton, List.sum_singleton, counted_append,
      counted_letterTexts, counted_summaryText (by decide)] at hle
    let lost : Finset Text :=
      {List.replicate 255 'x', List.replicate 256 'x', deliveryGap ['A'] 0 ['e']}
    have hlost : ∀ t ∈ lost, t ∉ letterTexts 255 ++ [summaryText 2] := by
      intro t ht
      simp only [lost, Finset.mem_insert, Finset.mem_singleton] at ht
      rw [List.mem_append, List.mem_singleton, not_or]
      rcases ht with rfl | rfl | rfl
      · exact ⟨fun hmem => absurd (replicate_mem_letterTexts.mp hmem) (by decide), by decide⟩
      · exact ⟨fun hmem => absurd (replicate_mem_letterTexts.mp hmem) (by decide), by decide⟩
      · exact ⟨hgap, by decide⟩
    have hsubset : lost ⊆ leftOut (letterTexts 255 ++ [List.replicate 255 'x',
        List.replicate 256 'x'] ++ [deliveryGap ['A'] 0 ['e']])
        [letterTexts 255 ++ [summaryText 2]] := by
      intro t ht
      refine Finset.mem_filter.mpr ⟨List.mem_toFinset.mpr ?_, fun gaps hgaps => ?_⟩
      · simp only [lost, Finset.mem_insert, Finset.mem_singleton] at ht
        rw [List.append_assoc, List.mem_append]
        rcases ht with rfl | rfl | rfl
        · exact .inr List.mem_cons_self
        · exact .inr (List.mem_cons_of_mem _ List.mem_cons_self)
        · exact .inr (List.mem_cons_of_mem _ (List.mem_cons_of_mem _ List.mem_cons_self))
      · rw [List.mem_singleton.mp hgaps]
        exact hlost t ht
    have hcard : lost.card = 3 := by decide +kernel
    have hthree := (Finset.card_le_card hsubset).trans hle
    rw [hcard] at hthree
    exact absurd hthree (by decide)

end LiveTail
end CmTrace
