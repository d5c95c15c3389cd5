import CmTrace.LiveTail.Batcher
import Mathlib.Algebra.BigOperators.Group.List.Lemmas

/-!
# Runs of a live tail

What a tail has emitted, what it holds and what it reports when it stops, in any order of
pushes, flushes and emissions.
-/

namespace CmTrace
namespace LiveTail

open Text

/-! ## Diagnostics that are accounted for -/

/-- A text is kept in one of the lists, or the summaries of the lists count it. -/
def Covered (texts : List Text) (lists : List (List Text)) : Prop :=
  ∀ D : Finset Text, (∀ t ∈ D, t ∈ texts ∧ ∀ gaps ∈ lists, t ∉ kept gaps) →
    min usizeMax D.card ≤ (lists.map counted).sum

theorem covered_nil (lists : List (List Text)) : Covered [] lists := by
  intro D hD
  have hempty : D = ∅ := Finset.eq_empty_of_forall_notMem fun t ht => by
    cases (hD t ht).1
  rw [hempty, Finset.card_empty, Nat.min_zero]
  exact Nat.zero_le _

theorem Covered.replace {texts : List Text} {lists lists' : List (List Text)}
    (h : Covered texts lists) (more : List Text) (lost : Nat)
    (hlost : ∀ D : Finset Text, (∀ t ∈ D, (t ∈ more ∨ ∃ gaps ∈ lists, t ∈ kept gaps) ∧
      ∀ gaps ∈ lists', t ∉ kept gaps) → D.card ≤ lost)
    (hsum : min usizeMax ((lists.map counted).sum + lost) ≤ (lists'.map counted).sum) :
    Covered (texts ++ more) lists' := by
  classical
  intro D hD
  let here : Text → Prop := fun t => t ∈ more ∨ ∃ gaps ∈ lists, t ∈ kept gaps
  have hsplit : (D.filter here).card + (D.filter fun t => ¬ here t).card = D.card :=
    Finset.card_filter_add_card_filter_not _
  have hleft : (D.filter here).card ≤ lost := by
    refine hlost _ fun t ht => ?_
    obtain ⟨ht, hhere⟩ := Finset.mem_filter.mp ht
    exact ⟨hhere, (hD t ht).2⟩
  have hright : min usizeMax (D.filter fun t => ¬ here t).card ≤ (lists.map counted).sum := by
    refine h _ fun t ht => ?_
    obtain ⟨ht, hhere⟩ := Finset.mem_filter.mp ht
    obtain ⟨hnotMore, hnotKept⟩ := not_or.mp hhere
    refine ⟨(List.mem_append.mp (hD t ht).1).resolve_right hnotMore, fun gaps hgaps hkept => ?_⟩
    exact hnotKept ⟨gaps, hgaps, hkept⟩
  omega

theorem Covered.mono {texts : List Text} {lists lists' : List (List Text)} (h : Covered texts lists)
    (hkept : ∀ gaps ∈ lists, ∀ t ∈ kept gaps, ∃ gaps' ∈ lists', t ∈ kept gaps')
    (hsum : (lists.map counted).sum ≤ (lists'.map counted).sum) : Covered texts lists' := by
  have hreplace : Covered (texts ++ []) lists' := h.replace [] 0 (fun D hD => ?_) (by omega)
  · rwa [List.append_nil] at hreplace
  · refine (Finset.card_eq_zero.mpr (Finset.eq_empty_of_forall_notMem fun t ht => ?_)).le
    obtain ⟨hhere, hgone⟩ := hD t ht
    rcases hhere with hmore | ⟨gaps, hgaps, hin⟩
    · cases hmore
    · obtain ⟨gaps', hgaps', hin'⟩ := hkept gaps hgaps t hin
      exact hgone gaps' hgaps' hin'

theorem Covered.pushed {texts : List Text} {gaps gaps' : List Text} {gap : Text}
    {lists : List (List Text)} (h : Covered texts (gaps :: lists)) (hpushed : Pushed gaps gap gaps') :
    Covered (texts ++ [gap]) (gaps' :: lists) := by
  obtain ⟨-, hkeeps, hentered⟩ := hpushed
  -- only the text itself can be without a place
  have hlone : ∀ D : Finset Text, (∀ t ∈ D, (t ∈ [gap] ∨ ∃ list ∈ gaps :: lists, t ∈ kept list) ∧
      ∀ list ∈ gaps' :: lists, t ∉ kept list) → D ⊆ {gap} \ (kept gaps').toFinset := by
    intro D hD t ht
    obtain ⟨hhere, hgone⟩ := hD t ht
    rw [Finset.mem_sdiff, Finset.mem_singleton, List.mem_toFinset]
    refine ⟨?_, hgone gaps' List.mem_cons_self⟩
    rcases hhere with hgap | ⟨list, hlist, hin⟩
    · exact List.mem_singleton.mp hgap
    · rcases List.mem_cons.mp hlist with rfl | hlist
      · exact absurd (hkeeps.subset hin) (hgone gaps' List.mem_cons_self)
      · exact absurd hin (hgone list (List.mem_cons_of_mem _ hlist))
  rcases hentered with ⟨hin, hcounted⟩ | ⟨-, hcounted⟩
  · refine h.replace [gap] 0 (fun D hD => ?_) ?_
    · have hempty : ({gap} : Finset Text) \ (kept gaps').toFinset = ∅ := by
        rw [Finset.sdiff_eq_empty_iff_subset, Finset.singleton_subset_iff, List.mem_toFinset]
        exact hin
      have hsubset := hlone D hD
      rw [hempty, Finset.subset_empty] at hsubset
      rw [hsubset, Finset.card_empty]
    · rw [List.map_cons, List.map_cons, List.sum_cons, List.sum_cons, hcounted]
      omega
  · refine h.replace [gap] 1 (fun D hD => ?_) ?_
    · have hcard := Finset.card_le_card ((hlone D hD).trans Finset.sdiff_subset)
      rwa [Finset.card_singleton] at hcard
    · rw [List.map_cons, List.map_cons, List.sum_cons, List.sum_cons]
      omega

theorem Covered.foldl_pushed {lists : List (List Text)} (pushed : List Text) {texts gaps : List Text}
    (h : Covered texts (gaps :: lists)) (hgaps : Bounded gaps) :
    Bounded (pushed.foldl pushBoundedTailCoverageGap gaps) ∧
      Covered (texts ++ pushed) (pushed.foldl pushBoundedTailCoverageGap gaps :: lists) := by
  induction pushed generalizing texts gaps with
  | nil => exact ⟨hgaps, by rwa [List.append_nil]⟩
  | cons gap rest ih =>
    have hgap := pushed_pushBounded hgaps gap
    have hrest := ih (h.pushed hgap) hgap.bounded
    rwa [List.append_assoc] at hrest

/-! ## What an emission leaves -/

theorem counted_perm {a b : List Text} (h : a.Perm b) : counted a = counted b :=
  (h.map _).sum_eq

theorem counted_le_of_subperm {a b : List Text} (h : a.Subperm b) : counted a ≤ counted b := by
  obtain ⟨list, hperm, hsublist⟩ := h
  rw [← counted_perm hperm]
  exact (hsublist.map _).sum_le_sum fun _ _ => Nat.zero_le _

/-- The diagnostics of a failed batch that were stored before, and that it has once. -/
def knownGaps (stored merged : List Text) (gap : Text) : Bool :=
  decide (gap ∈ kept stored) && decide (merged.count gap = 1)

theorem counted_known_le (stored merged : List Text) :
    counted (merged.filter (knownGaps stored merged)) ≤ counted stored := by
  refine counted_le_of_subperm (List.subperm_of_subset ?_ fun gap hgap => ?_)
  · refine List.nodup_iff_count_le_one.mpr fun gap => ?_
    by_cases hgap : gap ∈ merged.filter (knownGaps stored merged)
    · have hknown := (List.mem_filter.mp hgap).2
      rw [knownGaps, Bool.and_eq_true, decide_eq_true_eq, decide_eq_true_eq] at hknown
      exact (List.filter_sublist.count_le gap).trans hknown.2.le
    · rw [List.count_eq_zero_of_not_mem hgap]
      exact Nat.zero_le _
  · have hknown := (List.mem_filter.mp hgap).2
    rw [knownGaps, Bool.and_eq_true, decide_eq_true_eq] at hknown
    exact mem_of_mem_kept hknown.1

theorem counted_not_known (stored merged : List Text) :
    counted merged ≤ counted stored +
      counted (merged.filter fun gap => !knownGaps stored merged gap) := by
  have hperm := List.filter_append_perm (knownGaps stored merged) merged
  rw [← counted_perm hperm, counted_append]
  exact Nat.add_le_add_right (counted_known_le stored merged) _

theorem isSummary_deliveryGap (channel : Text) (sequence : Nat) (error : Text) :
    isSummary (deliveryGap channel sequence error) = false := by
  by_contra hsummary
  rw [Bool.not_eq_false, isSummary, Option.isSome_iff_exists] at hsummary
  obtain ⟨omitted, homitted⟩ := hsummary
  obtain ⟨summary, hprefix, hrest⟩ := Option.bind_eq_some_iff.mp homitted
  obtain ⟨count, hsuffix, -⟩ := Option.bind_eq_some_iff.mp hrest
  obtain ⟨before, hbefore, -⟩ := List.dropPrefix?_eq_some_iff.mp hprefix
  obtain ⟨after, hafter, hbeq⟩ := List.dropSuffix?_eq_some_iff.mp hsuffix
  rw [eq_of_beq hbeq] at hafter
  -- a summary does not end in a bracket
  have hlast := congrArg List.getLast? hbefore
  rw [deliveryGap, List.getLast?_concat, hafter, ← List.append_assoc,
    show tailCoverageSummarySuffix = tailCoverageSummarySuffix.dropLast ++ ['d'] from rfl,
    ← List.append_assoc, List.getLast?_concat] at hlast
  exact absurd hlast (by decide)

theorem Covered.delivered {texts taken stored : List Text} {lists : List (List Text)}
    (h : Covered texts (taken :: stored :: lists))
    (hmerged : PushedAll (fun _ => false) taken stored (mergeTailCoverageGaps stored taken)) :
    Covered texts (mergeTailCoverageGaps stored taken :: lists) := by
  obtain ⟨-, hkeeps, lost, hlost, hcounts⟩ := hmerged
  have hfilter : (stored.filter fun _ => !false) = stored := List.filter_true stored
  rw [hfilter] at hcounts
  have hreplace : Covered (texts ++ []) (mergeTailCoverageGaps stored taken :: lists) :=
    h.replace [] lost (fun D hD => hlost D fun t ht => ?_) ?_
  · rwa [List.append_nil] at hreplace
  · obtain ⟨hhere, hgone⟩ := hD t ht
    refine ⟨?_, hgone _ List.mem_cons_self⟩
    rcases hhere with hmore | ⟨gaps, hgaps, hin⟩
    · cases hmore
    · rcases List.mem_cons.mp hgaps with rfl | hgaps
      · exact absurd (hkeeps.subset hin) (hgone _ List.mem_cons_self)
      · rcases List.mem_cons.mp hgaps with rfl | hgaps
        · exact mem_of_mem_kept hin
        · exact absurd hin (hgone gaps (List.mem_cons_of_mem _ hgaps))
  · simp only [List.map_cons, List.sum_cons]
    omega

theorem Covered.remembered {texts taken stored : List Text} {lists : List (List Text)}
    (h : Covered texts (taken :: stored :: lists))
    (hmerged : PushedAll (fun _ => false) taken stored (mergeTailCoverageGaps stored taken))
    (hremembered : PushedAll (knownGaps stored (mergeTailCoverageGaps stored taken)) stored
      (mergeTailCoverageGaps stored taken)
      (rememberTailCoverageGaps stored (mergeTailCoverageGaps stored taken))) :
    Covered texts
      (rememberTailCoverageGaps stored (mergeTailCoverageGaps stored taken) :: lists) := by
  obtain ⟨-, hkeepsTaken, _, -, hcountsTaken⟩ := hmerged
  obtain ⟨-, hkeepsStored, lost, hlost, hcounts⟩ := hremembered
  have hfilter : (stored.filter fun _ => !false) = stored := List.filter_true stored
  rw [hfilter] at hcountsTaken
  have hnotKnown := counted_not_known stored (mergeTailCoverageGaps stored taken)
  have hreplace : Covered (texts ++ [])
      (rememberTailCoverageGaps stored (mergeTailCoverageGaps stored taken) :: lists) :=
    h.replace [] lost (fun D hD => hlost D fun t ht => ?_) ?_
  · rwa [List.append_nil] at hreplace
  · obtain ⟨hhere, hgone⟩ := hD t ht
    refine ⟨?_, hgone _ List.mem_cons_self⟩
    rcases hhere with hmore | ⟨gaps, hgaps, hin⟩
    · cases hmore
    · rcases List.mem_cons.mp hgaps with rfl | hgaps
      · exact mem_of_mem_kept (hkeepsTaken.subset hin)
      · rcases List.mem_cons.mp hgaps with rfl | hgaps
        · exact absurd (hkeepsStored.subset hin) (hgone _ List.mem_cons_self)
        · exact absurd hin (hgone gaps (List.mem_cons_of_mem _ hgaps))
  · simp only [List.map_cons, List.sum_cons]
    omega

/-! ## Runs -/

section

variable {R : Type} {channel : Text}

def TailState.batches (s : TailState R) : List (EvtxTailBatch R) :=
  s.emissions.map Emission.batch ++ s.taken.toList

/-- The diagnostics of the batches that went through. -/
def TailState.deliveredGaps (s : TailState R) : List (List Text) :=
  (s.emissions.filter Emission.delivered).map fun emission => emission.batch.coverageGaps

/-- What holds of a tail in every run. -/
structure Sound (s : TailState R) : Prop where
  pending : Bounded s.pending.coverageGaps
  stored : Bounded s.coverageGaps
  batches : ∀ batch ∈ s.batches, Bounded batch.coverageGaps
  next : s.sequence = s.batches.length % 2 ^ 64
  sequences : s.batches.map EvtxTailBatch.sequence =
    (List.range s.batches.length).map (· % 2 ^ 64)
  rendered : s.rendered = s.batches.flatMap EvtxTailBatch.records ++ s.pending.records
  stopped : ∀ status ∈ s.status, status.coverageGaps = s.coverageGaps ∧ s.taken = none ∧
    s.pending.isEmpty = true

theorem sound_start : Sound ({} : TailState R) := by
  refine ⟨bounded_nil, bounded_nil, ?_, rfl, rfl, rfl, ?_⟩
  · intro batch hbatch
    cases hbatch
  · intro status hstatus
    cases hstatus

theorem bounded_foldl (gaps : List Text) {pending : List Text} (h : Bounded pending) :
    Bounded (gaps.foldl pushBoundedTailCoverageGap pending) :=
  (Covered.foldl_pushed gaps (covered_nil [pending]) h).1

theorem batches_emit (s : TailState R) (batch : EvtxTailBatch R) (error : Option Text) :
    (emitTailEvent channel s batch error).batches = s.emissions.map Emission.batch ++
      [{ batch with coverageGaps := mergeTailCoverageGaps s.coverageGaps batch.coverageGaps }] := by
  cases error <;> simp [emitTailEvent, TailState.batches]

theorem batches_of_taken {s : TailState R} {batch : EvtxTailBatch R} (htaken : s.taken = some batch) :
    s.batches = s.emissions.map Emission.batch ++ [batch] := by
  rw [TailState.batches, htaken]
  rfl

theorem sound_emit {s : TailState R} {batch : EvtxTailBatch R} (h : Sound s)
    (hstatus : s.status = none) (htaken : s.taken = some batch) (error : Option Text) :
    Sound (emitTailEvent channel s batch error) := by
  have hbatches := batches_of_taken htaken
  have hmerged : Bounded (mergeTailCoverageGaps s.coverageGaps batch.coverageGaps) := by
    refine bounded_pushMissing _ (h.batches batch ?_)
    rw [hbatches]
    exact List.mem_append_right _ (List.mem_singleton.mpr rfl)
  have hlength : (emitTailEvent channel s batch error).batches.length = s.batches.length := by
    rw [batches_emit, hbatches, List.length_append, List.length_append]
    rfl
  refine ⟨?_, ?_, ?_, ?_, ?_, ?_, ?_⟩
  · cases error <;> exact h.pending
  · cases error with
    | none => exact bounded_nil
    | some error => exact bounded_pushMissing _ (bounded_pushMissing _ h.stored)
  · intro other hother
    rw [batches_emit, List.mem_append, List.mem_singleton] at hother
    rcases hother with hother | rfl
    · refine h.batches other ?_
      rw [hbatches]
      exact List.mem_append_left _ hother
    · exact hmerged
  · rw [hlength, ← h.next]
    cases error <;> rfl
  · rw [hlength, ← h.sequences, batches_emit, hbatches, List.map_append, List.map_append]
    rfl
  · have hrendered := h.rendered
    rw [hbatches, List.flatMap_append] at hrendered
    rw [batches_emit, List.flatMap_append]
    cases error <;> exact hrendered
  · intro status hstopped
    have hnone : (emitTailEvent channel s batch error).status = none := by
      cases error <;> exact hstatus
    rw [hnone] at hstopped
    cases hstopped

theorem sound_step {s s' : TailState R} {action : TailAction R} (h : Sound s)
    (hstep : step channel s action = some s') : Sound s' := by
  obtain ⟨hstatus, hstepped⟩ := stepped_of_step hstep
  have hrunning : ∀ {p : EvtxTailStatus → Prop}, ∀ status ∈ s.status, p status := by
    intro p status hstopped
    rw [hstatus] at hstopped
    cases hstopped
  cases hstepped with
  | pushRendered record gaps hfull =>
    refine ⟨bounded_foldl gaps h.pending, h.stored, h.batches, h.next, h.sequences, ?_, hrunning⟩
    show s.rendered ++ [record] =
      s.batches.flatMap EvtxTailBatch.records ++ (s.pending.records ++ [record])
    rw [h.rendered, List.append_assoc]
  | pushGap gap =>
    exact ⟨(pushed_pushBounded h.pending gap).bounded, h.stored, h.batches, h.next, h.sequences,
      h.rendered, hrunning⟩
  | takeNothing htaken hempty => exact h
  | take htaken hempty =>
    have hbatches : s.batches = s.emissions.map Emission.batch := by
      rw [TailState.batches, htaken]
      exact List.append_nil _
    obtain ⟨hpending, hstored, hbounded, hnext, hsequences, hrendered, -⟩ := h
    rw [hbatches] at hbounded hnext hsequences hrendered
    refine ⟨bounded_nil, hstored, ?_, ?_, ?_, ?_, hrunning⟩
    · intro batch hbatch
      rcases List.mem_append.mp hbatch with hbatch | hbatch
      · exact hbounded batch hbatch
      · rw [List.mem_singleton.mp hbatch]
        exact hpending
    · show (s.sequence + 1) % 2 ^ 64 = (s.emissions.map Emission.batch ++ [_]).length % 2 ^ 64
      rw [List.length_append, hnext]
      exact Nat.mod_add_mod _ _ _
    · show (s.emissions.map Emission.batch ++ [_]).map EvtxTailBatch.sequence =
        (List.range (s.emissions.map Emission.batch ++ [_]).length).map (· % 2 ^ 64)
      rw [List.map_append, hsequences, List.length_append, List.length_singleton,
        List.range_succ, List.map_append, List.map_singleton, List.map_singleton, ← hnext]
    · show s.rendered = (s.emissions.map Emission.batch ++ [_]).flatMap EvtxTailBatch.records ++ []
      rw [List.flatMap_append, List.append_nil, hrendered]
      exact congrArg _ (List.append_nil _).symm
  | emit batch error htaken => exact sound_emit h hstatus htaken error
  | stop htaken hempty =>
    refine ⟨h.pending, h.stored, h.batches, h.next, h.sequences, h.rendered, ?_⟩
    intro status hstopped
    cases hstopped
    exact ⟨rfl, htaken, hempty⟩

theorem sound_of_reached {may : TailState R → TailAction R → Prop} {s : TailState R}
    (h : Reached channel may s) : Sound s := by
  induction h with
  | start => exact sound_start
  | step _ _ hstep ih => exact sound_step ih hstep

end

end LiveTail
end CmTrace
