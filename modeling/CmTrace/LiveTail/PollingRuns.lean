import CmTrace.LiveTail.Polling

/-!
# Each record once

The polls of a channel whose history only grows show windows that slide over its
matching records.  What is new in a window is emitted, and stays known as long as a
window can show it, so that no record is emitted twice.
-/

namespace CmTrace
namespace LiveTail

open Text Collections KeyMemory

/-! ## Windows of the matching records -/

section Windows

variable {history : List EvtxRecord} {isMatch : EvtxRecord → Bool}

def matchesBefore (history : List EvtxRecord) (isMatch : EvtxRecord → Bool) (n : Nat) : Nat :=
  ((history.take n).filter isMatch).length

theorem filter_take (n : Nat) : (history.take n).filter isMatch =
    (history.filter isMatch).take (matchesBefore history isMatch n) := by
  have hsplit : history.filter isMatch =
      (history.take n).filter isMatch ++ (history.drop n).filter isMatch := by
    rw [← List.filter_append, List.take_append_drop]
  rw [hsplit, matchesBefore, List.take_left']
  rfl

theorem matchesBefore_mono {m n : Nat} (h : m ≤ n) :
    matchesBefore history isMatch m ≤ matchesBefore history isMatch n :=
  ((List.take_sublist_take_left h).filter isMatch).length_le

theorem matchesBefore_le (n : Nat) :
    matchesBefore history isMatch n ≤ (history.filter isMatch).length :=
  ((List.take_sublist n history).filter isMatch).length_le

def windowStart (history : List EvtxRecord) (isMatch : EvtxRecord → Bool) (first last : Nat) :
    Nat :=
  max (matchesBefore history isMatch (min first last))
    (matchesBefore history isMatch last - eventFetchBatch)

theorem reachedRecords (first last : Nat) : ((history.take last).drop first).filter isMatch =
    ((history.filter isMatch).take (matchesBefore history isMatch last)).drop
      (matchesBefore history isMatch (min first last)) := by
  have hsplit : (history.take last).filter isMatch =
      (history.take (min first last)).filter isMatch ++
        ((history.take last).drop first).filter isMatch := by
    rw [← List.take_take, ← List.filter_append, List.take_append_drop]
  rw [← filter_take, hsplit, matchesBefore, List.drop_left']
  rfl

theorem query_records (first last : Nat) (diagnostics : List Text)
    (providerGaps : List EvtxCoverageGap) :
    (queryChannel history isMatch first last diagnostics providerGaps).records =
      newest (history.filter isMatch) (windowStart history isMatch first last)
        (matchesBefore history isMatch last) := by
  have hlength : (((history.filter isMatch).take (matchesBefore history isMatch last)).drop
      (matchesBefore history isMatch (min first last))).length =
        matchesBefore history isMatch last - matchesBefore history isMatch (min first last) := by
    rw [List.length_drop, List.length_take, Nat.min_eq_left (matchesBefore_le last)]
  show (((history.take last).drop first).filter isMatch).reverse.take eventFetchBatch = _
  have hstart : ∀ s e n : Nat, s + (e - s - n) = max s (e - n) := by omega
  rw [reachedRecords, List.take_reverse, hlength, List.drop_drop, hstart, newest, windowStart]

theorem windowStart_le (first last : Nat) :
    windowStart history isMatch first last ≤ matchesBefore history isMatch last :=
  max_le (matchesBefore_mono (Nat.min_le_right _ _)) (Nat.sub_le _ _)

theorem windowStart_mono {first last first' last' : Nat} (hfirst : first ≤ first')
    (hlast : last ≤ last') :
    windowStart history isMatch first last ≤ windowStart history isMatch first' last' :=
  max_le_max (matchesBefore_mono (by omega)) (Nat.sub_le_sub_right (matchesBefore_mono hlast) _)

theorem window_width (first last : Nat) : matchesBefore history isMatch last -
    windowStart history isMatch first last ≤ eventFetchBatch := by
  rw [windowStart]
  omega

end Windows

/-! ## What is emitted -/

def PollingTail.emitted (tail : PollingTail) : List EvtxRecord :=
  tail.tail.emissions.flatMap fun emission => emission.batch.records

def Poll.returned (history : List EvtxRecord) (isMatch : EvtxRecord → Bool) (p : Poll) :
    List EvtxRecord :=
  match p.outcome with
  | .ok (first, last, diagnostics, providerGaps) =>
    (queryChannel history isMatch first last diagnostics providerGaps).records
  | .error _ => []

def Poll.present (history : List EvtxRecord) (isMatch : EvtxRecord → Bool) (p : Poll) :
    List EvtxRecord :=
  match p.outcome with
  | .ok (first, last, _, _) => ((history.take last).drop first).filter isMatch
  | .error _ => []

/-- The polls that are answered reach parts of the history that only move on. -/
def Slides : Nat → Nat → List Poll → Prop
  | _, _, [] => True
  | first, last, p :: polls =>
    match p.outcome with
    | .ok (first', last', _, _) => first ≤ first' ∧ last ≤ last' ∧ Slides first' last' polls
    | .error _ => Slides first last polls

section Once

variable {hash : HashedPayload → UInt64} {toLowercase : Text → Text} {channel fallbackGap : Text}

theorem emissions_emitNext (state : TailState EvtxRecord) (records : List EvtxRecord)
    (coverageGaps : List Text) (error : Option Text) :
    (emitNext channel state records coverageGaps error).emissions = state.emissions ++
      [⟨⟨state.sequence, records, mergeTailCoverageGaps state.coverageGaps coverageGaps⟩,
        error.isNone⟩] := by
  cases error with
  | none => rfl
  | some error => rfl

theorem emitted_onScan (tail : PollingTail) (scan : ChannelScan) (emitError : Option Text) :
    (onScan hash toLowercase channel fallbackGap tail scan emitError).emitted =
      tail.emitted ++ (tail.memory.retain (pollingRecordIdentity hash) scan.records).2 := by
  rw [onScan, PollingTail.emitted]
  dsimp only
  split_ifs with hempty
  · rw [hempty.1, List.append_nil]
    rfl
  · rw [emissions_emitNext, List.flatMap_append]
    exact congrArg (_ ++ ·) (List.append_nil _)

theorem emitted_error (history : List EvtxRecord) (isMatch : EvtxRecord → Bool)
    (tail : PollingTail) {p : Poll} {error : Text} (h : p.outcome = .error error) :
    (poll hash toLowercase channel fallbackGap history isMatch tail p).emitted = tail.emitted ∧
      (poll hash toLowercase channel fallbackGap history isMatch tail p).memory = tail.memory := by
  rw [poll, h]
  refine ⟨?_, rfl⟩
  show (emitNext channel tail.tail [] _ _).emissions.flatMap _ = _
  rw [emissions_emitNext, List.flatMap_append]
  exact List.append_nil _

/-- What a tail has emitted of the matching records, and what it knows, after windows up
to the one from `first` to `last`. -/
structure Once (hash : HashedPayload → UInt64) (xs : List EvtxRecord) (tail : PollingTail)
    (first last : Nat) : Prop where
  memory : ∃ ps, Remembers (xs.map (pollingRecordIdentity hash)) eventFetchBatch tail.memory
    first last ps
  nodup : tail.emitted.Nodup
  places : ∀ r ∈ tail.emitted, ∃ p < last, xs[p]? = some r
  window : ∀ p, first ≤ p → p < last → ∀ r, xs[p]? = some r → r ∈ tail.emitted
  width : last - first ≤ eventFetchBatch

theorem once_nil (xs : List EvtxRecord) : Once hash xs {} 0 0 where
  memory := ⟨[], remembers_nil _ _⟩
  nodup := List.nodup_nil
  places := fun _ hr => absurd hr List.not_mem_nil
  window := fun _ _ hp => absurd hp (Nat.not_lt_zero _)
  width := Nat.zero_le _

theorem mem_newest {xs : List EvtxRecord} {first last : Nat} {r : EvtxRecord} :
    r ∈ newest xs first last ↔ ∃ p, first ≤ p ∧ p < last ∧ xs[p]? = some r := by
  rw [newest, List.mem_reverse, List.mem_iff_getElem?]
  simp only [List.getElem?_drop, List.getElem?_take]
  constructor
  · rintro ⟨i, hi⟩
    split_ifs at hi with hlt
    · exact ⟨first + i, by omega, hlt, hi⟩
  · rintro ⟨p, hp, hlt, hr⟩
    refine ⟨p - first, ?_⟩
    rw [Nat.add_sub_cancel' hp, if_pos hlt]
    exact hr

theorem once_onScan {xs : List EvtxRecord} (hkeys : (xs.map (pollingRecordIdentity hash)).Nodup)
    {tail : PollingTail} {first last first' last' : Nat} (h : Once hash xs tail first last)
    (hfirst : first ≤ first') (hlast : last ≤ last') (horder : first' ≤ last')
    (hwidth : last' - first' ≤ eventFetchBatch) (hlength : last' ≤ xs.length) {scan : ChannelScan}
    (hscan : scan.records = newest xs first' last') (emitError : Option Text) :
    Once hash xs (onScan hash toLowercase channel fallbackGap tail scan emitError) first'
      last' := by
  obtain ⟨ps, hmemory⟩ := h.memory
  obtain ⟨hnew, hremembers⟩ := retain_newest hkeys hmemory hfirst hlast horder hwidth hlength
  have hemitted : (onScan hash toLowercase channel fallbackGap tail scan emitError).emitted =
      tail.emitted ++ newest xs (max first' last) last' := by
    rw [emitted_onScan, hscan, hnew]
  have hxs : xs.Nodup := hkeys.of_map _
  refine ⟨?_, ?_, ?_, ?_, hwidth⟩
  · rw [onScan]
    dsimp only
    rw [hscan]
    exact trim_remembers hkeys hremembers hwidth (by decide)
  · rw [hemitted]
    refine List.nodup_append.mpr ⟨h.nodup, ?_, fun r hr r' hr' heq => ?_⟩
    · exact List.nodup_reverse.mpr
        ((hxs.sublist (List.take_sublist _ _)).sublist (List.drop_sublist _ _))
    · obtain ⟨p, hp, hpr⟩ := h.places r hr
      obtain ⟨q, hq, -, hqr⟩ := mem_newest.mp hr'
      have hplace := getElem?_inj_of_nodup hxs (p := p) (q := q) (by omega)
        (by rw [hpr, hqr, heq])
      omega
  · intro r hr
    rw [hemitted] at hr
    rcases List.mem_append.mp hr with hr | hr
    · obtain ⟨p, hp, hpr⟩ := h.places r hr
      exact ⟨p, by omega, hpr⟩
    · obtain ⟨p, -, hp, hpr⟩ := mem_newest.mp hr
      exact ⟨p, hp, hpr⟩
  · intro p hp hp' r hr
    rw [hemitted, List.mem_append]
    by_cases hlt : p < last
    · exact .inl (h.window p (by omega) hlt r hr)
    · exact .inr (mem_newest.mpr ⟨p, by omega, hp', hr⟩)

theorem once_error {history : List EvtxRecord} {isMatch : EvtxRecord → Bool} {xs : List EvtxRecord}
    {tail : PollingTail} {first last : Nat} (h : Once hash xs tail first last) {p : Poll}
    {error : Text} (herror : p.outcome = .error error) :
    Once hash xs (poll hash toLowercase channel fallbackGap history isMatch tail p) first last := by
  obtain ⟨hemitted, hmemory⟩ :=
    @emitted_error hash toLowercase channel fallbackGap history isMatch tail p error herror
  exact ⟨hmemory ▸ h.memory, hemitted ▸ h.nodup, hemitted ▸ h.places, hemitted ▸ h.window, h.width⟩

theorem once_polls {history : List EvtxRecord} {isMatch : EvtxRecord → Bool}
    (hkeys : ((history.filter isMatch).map (pollingRecordIdentity hash)).Nodup)
    {polls : List Poll} {tail : PollingTail} {first last : Nat}
    (h : Once hash (history.filter isMatch) tail (windowStart history isMatch first last)
      (matchesBefore history isMatch last)) (hslides : Slides first last polls) :
    let final := polls.foldl (poll hash toLowercase channel fallbackGap history isMatch) tail
    final.emitted.Nodup ∧ tail.emitted ⊆ final.emitted ∧
      ∀ p ∈ polls, p.returned history isMatch ⊆ final.emitted := by
  induction polls generalizing tail first last with
  | nil => exact ⟨h.nodup, fun _ hr => hr, fun p hp => absurd hp List.not_mem_nil⟩
  | cons p polls ih =>
    rw [List.foldl_cons]
    cases houtcome : p.outcome with
    | error error =>
      rw [Slides, houtcome] at hslides
      obtain ⟨hnodup, hsub, hreturned⟩ := ih (once_error h houtcome) hslides
      rw [(emitted_error history isMatch tail houtcome).1] at hsub
      refine ⟨hnodup, hsub, List.forall_mem_cons.mpr ⟨?_, hreturned⟩⟩
      rw [Poll.returned, houtcome]
      exact List.nil_subset _
    | ok met =>
      obtain ⟨first', last', diagnostics, providerGaps⟩ := met
      rw [Slides, houtcome] at hslides
      obtain ⟨hfirst, hlast, hrest⟩ := hslides
      have hpoll : poll hash toLowercase channel fallbackGap history isMatch tail p =
          onScan hash toLowercase channel fallbackGap tail
            (queryChannel history isMatch first' last' diagnostics providerGaps) p.emitError := by
        rw [poll, houtcome]
      have hrecords := @query_records history isMatch first' last' diagnostics providerGaps
      have honce : Once hash (history.filter isMatch)
          (poll hash toLowercase channel fallbackGap history isMatch tail p)
          (windowStart history isMatch first' last') (matchesBefore history isMatch last') := by
        rw [hpoll]
        exact once_onScan hkeys h (windowStart_mono hfirst hlast) (matchesBefore_mono hlast)
          (windowStart_le first' last') (window_width first' last') (matchesBefore_le last')
          hrecords p.emitError
      obtain ⟨hnodup, hsub, hreturned⟩ := ih honce hrest
      have hkept : tail.emitted ⊆
          (poll hash toLowercase channel fallbackGap history isMatch tail p).emitted := by
        rw [hpoll, emitted_onScan]
        exact List.subset_append_left _ _
      refine ⟨hnodup, fun r hr => hsub (hkept hr), List.forall_mem_cons.mpr ⟨?_, hreturned⟩⟩
      intro r hr
      rw [Poll.returned, houtcome] at hr
      dsimp only at hr
      rw [hrecords] at hr
      obtain ⟨q, hq, hq', hqr⟩ := mem_newest.mp hr
      exact hsub (honce.window q hq hq' r hqr)

theorem present_subset_returned {history : List EvtxRecord} {isMatch : EvtxRecord → Bool} {p : Poll}
    (h : (p.returned history isMatch).length < eventFetchBatch) :
    p.present history isMatch ⊆ p.returned history isMatch := by
  rw [Poll.present, Poll.returned] at *
  cases houtcome : p.outcome with
  | error error => exact List.nil_subset _
  | ok met =>
    obtain ⟨first, last, diagnostics, providerGaps⟩ := met
    rw [houtcome] at h
    dsimp only [queryChannel] at h ⊢
    rw [List.length_take] at h
    intro r hr
    rw [List.take_of_length_le (by omega)]
    exact List.mem_reverse.mpr hr

end Once

/-! ## The diagnostic of a full poll -/

/-- A list with room, or a full one whose last entry is the summary of the others. -/
inductive Coalesced (gaps : List Text) : Prop
  | room (hlt : gaps.length < maxTailCoverageGaps)
  | full (entries : List Text) (omitted : Nat) (hone : 1 ≤ omitted) (hmax : omitted ≤ usizeMax)
      (hlength : entries.length = maxTailCoverageGaps - 1)
      (hgaps : gaps = entries ++ [summaryText omitted])

/-- A list that has an entry to stay, or counts what came past its bound. -/
inductive Tells (gap : Text) (gaps : List Text) : Prop
  | carries (hmem : gap ∈ kept gaps)
  | counts (entries : List Text) (omitted : Nat) (hone : 1 ≤ omitted) (hmax : omitted ≤ usizeMax)
      (hlength : entries.length = maxTailCoverageGaps - 1)
      (hgaps : gaps = entries ++ [summaryText omitted])

theorem push_full {gaps entries : List Text} {omitted : Nat} (hmax : omitted ≤ usizeMax)
    (hlength : entries.length = maxTailCoverageGaps - 1)
    (hgaps : gaps = entries ++ [summaryText omitted]) (gap : Text) :
    pushBoundedTailCoverageGap gaps gap =
      entries ++ [summaryText (min (omitted + 1) usizeMax)] := by
  have hfull : gaps.length = maxTailCoverageGaps := by
    rw [hgaps, List.length_append, hlength]
    rfl
  rw [pushBoundedTailCoverageGap, hfull, if_neg (by decide), if_neg (by decide), hgaps,
    List.getLast?_concat]
  dsimp only
  rw [omittedCount?_summaryText hmax]
  dsimp only
  rw [List.dropLast_concat]

theorem coalesced_push {gaps : List Text} (h : Coalesced gaps) (gap : Text) :
    Coalesced (pushBoundedTailCoverageGap gaps gap) := by
  have hmax : 1 ≤ usizeMax := by decide
  cases h with
  | room hlt =>
    rw [pushBoundedTailCoverageGap]
    split_ifs with hroom hlast
    · refine .room ?_
      rw [List.length_append, List.length_singleton]
      omega
    · exact .full gaps 1 (Nat.le_refl 1) hmax hlast rfl
    · omega
  | full entries omitted hone hmax hlength hgaps =>
    rw [push_full hmax hlength hgaps]
    exact .full entries _ (by omega) (Nat.min_le_right _ _) hlength rfl

theorem coalesced_foldl (texts : List Text) {gaps : List Text} (h : Coalesced gaps) :
    Coalesced (texts.foldl pushBoundedTailCoverageGap gaps) := by
  induction texts generalizing gaps with
  | nil => exact h
  | cons text texts ih => exact ih (coalesced_push h text)

theorem tells_pushed {gaps : List Text} (h : Coalesced gaps) (gap : Text) :
    Tells gap (pushBoundedTailCoverageGap gaps gap) := by
  have hmax : 1 ≤ usizeMax := by decide
  cases h with
  | room hlt =>
    rw [pushBoundedTailCoverageGap]
    split_ifs with hroom hlast
    · refine .carries ?_
      rw [kept_of_lt (by rw [List.length_append, List.length_singleton]; omega)]
      exact List.mem_append_right _ (List.mem_singleton_self gap)
    · exact .counts gaps 1 (Nat.le_refl 1) hmax hlast rfl
    · omega
  | full entries omitted hone hmax hlength hgaps =>
    rw [push_full hmax hlength hgaps]
    exact .counts entries _ (by omega) (Nat.min_le_right _ _) hlength rfl

theorem mem_kept_push {gaps : List Text} {gap : Text} (h : gap ∈ kept gaps) (next : Text) :
    gap ∈ kept (pushBoundedTailCoverageGap gaps next) := by
  rw [pushBoundedTailCoverageGap]
  have hprefix : ∀ more, gap ∈ kept (gaps ++ more) := fun more => by
    rw [kept, List.take_append]
    exact List.mem_append_left _ h
  split_ifs with hroom hlast
  · exact hprefix _
  · exact hprefix _
  · cases hgetLast : gaps.getLast? with
    | none => exact h
    | some summary =>
      have hdrop : ∀ entry, gap ∈ kept (gaps.dropLast ++ [entry]) := by
        intro entry
        have hsub : kept gaps <+: gaps.dropLast := by
          rw [kept, List.dropLast_eq_take]
          exact List.take_prefix_take_left (by omega)
        obtain ⟨rest, hrest⟩ := hsub
        rw [← hrest, kept, List.append_assoc, List.take_append]
        refine List.mem_append_left _ ?_
        rw [List.take_of_length_le (by rw [kept, List.length_take]; omega)]
        exact h
      dsimp only
      cases omittedCount? summary with
      | none => exact hdrop _
      | some omitted => exact hdrop _

theorem mem_kept_pushMissing (pushed : List Text) {gaps : List Text} {gap : Text}
    (h : gap ∈ kept gaps) : gap ∈ kept (pushMissing gaps pushed) := by
  induction pushed generalizing gaps with
  | nil => exact h
  | cons next pushed ih =>
    rw [pushMissing]
    split_ifs
    · exact ih h
    · exact ih (mem_kept_push h next)

theorem tells_push {gaps : List Text} {gap : Text} (h : Tells gap gaps) (next : Text) :
    Tells gap (pushBoundedTailCoverageGap gaps next) := by
  cases h with
  | carries hmem => exact .carries (mem_kept_push hmem next)
  | counts entries omitted hone hmax hlength hgaps =>
    rw [push_full hmax hlength hgaps]
    exact .counts entries _ (by omega) (Nat.min_le_right _ _) hlength rfl

theorem tells_pushMissing (pushed : List Text) {gaps : List Text} {gap : Text}
    (h : Tells gap gaps) : Tells gap (pushMissing gaps pushed) := by
  induction pushed generalizing gaps with
  | nil => exact h
  | cons next pushed ih =>
    rw [pushMissing]
    split_ifs
    · exact ih h
    · exact ih (tells_push h next)

theorem foldl_push_of_lt (texts : List Text) {gaps : List Text}
    (h : gaps.length + texts.length < maxTailCoverageGaps) :
    texts.foldl pushBoundedTailCoverageGap gaps = gaps ++ texts := by
  induction texts generalizing gaps with
  | nil => exact (List.append_nil _).symm
  | cons text texts ih =>
    rw [List.length_cons] at h
    have hpush : pushBoundedTailCoverageGap gaps text = gaps ++ [text] := by
      rw [pushBoundedTailCoverageGap, if_pos (by omega)]
    rw [List.foldl_cons, hpush, ih (by rw [List.length_append, List.length_singleton]; omega),
      List.append_assoc]
    rfl

section Saturation

variable {hash : HashedPayload → UInt64} {toLowercase : Text → Text} {channel fallbackGap : Text}

theorem length_keepProviderGaps (dedup : KeyMemory ProviderGapKey) (gaps : List EvtxCoverageGap) :
    (keepProviderGaps toLowercase dedup gaps).2.length ≤ gaps.length := by
  induction gaps generalizing dedup with
  | nil => exact Nat.le_refl 0
  | cons gap gaps ih =>
    rw [keepProviderGaps]
    dsimp only
    split_ifs
    · exact (ih dedup).trans (Nat.le_succ _)
    · exact Nat.succ_le_succ (ih _)

theorem tells_pollingGaps (tail : PollingTail) {scan : ChannelScan}
    (kept : List EvtxCoverageGap) (hgaps : Coalesced scan.gaps)
    (hfull : scan.delivered ≥ eventFetchBatch) :
    Tells (saturationGap channel) (pollingGaps channel fallbackGap tail scan kept) := by
  have hpushed := tells_pushed (coalesced_foldl (kept.map formatProviderGap) hgaps)
    (saturationGap channel)
  rw [pollingGaps, if_pos hfull, mergeTailCoverageGaps]
  refine tells_pushMissing _ ?_
  split_ifs
  · exact tells_push hpushed _
  · exact hpushed

theorem mem_pollingGaps (tail : PollingTail) {scan : ChannelScan} (provider : List EvtxCoverageGap)
    (hfull : scan.delivered ≥ eventFetchBatch)
    (hfew : scan.gaps.length + provider.length < maxTailCoverageGaps - 1) :
    saturationGap channel ∈ kept (pollingGaps channel fallbackGap tail scan provider) := by
  have hlength : (scan.gaps ++ provider.map formatProviderGap).length <
      maxTailCoverageGaps - 1 := by
    rw [List.length_append, List.length_map]
    exact hfew
  have hpushed : saturationGap channel ∈ kept (pushBoundedTailCoverageGap
      (scan.gaps ++ provider.map formatProviderGap) (saturationGap channel)) := by
    rw [pushBoundedTailCoverageGap, if_pos hlength, kept_of_lt]
    · exact List.mem_append_right _ (List.mem_singleton_self _)
    · rw [List.length_append, List.length_singleton]
      omega
  rw [pollingGaps, if_pos hfull, mergeTailCoverageGaps]
  refine mem_kept_pushMissing _ ?_
  rw [foldl_push_of_lt _ (by rw [List.length_map]; omega)]
  split_ifs
  · exact mem_kept_push hpushed _
  · exact hpushed

theorem emissions_onScan {tail : PollingTail} {scan : ChannelScan} {coverageGaps : List Text}
    (h : pollingGaps channel fallbackGap tail scan
      (keepProviderGaps toLowercase tail.providerGapDedup scan.providerGaps).2 = coverageGaps)
    (hne : coverageGaps ≠ []) (emitError : Option Text) :
    (onScan hash toLowercase channel fallbackGap tail scan emitError).tail.emissions =
      tail.tail.emissions ++ [⟨⟨tail.tail.sequence,
        (tail.memory.retain (pollingRecordIdentity hash) scan.records).2,
        mergeTailCoverageGaps tail.tail.coverageGaps coverageGaps⟩, emitError.isNone⟩] := by
  subst h
  rw [onScan]
  dsimp only
  rw [if_neg (fun h => hne h.2), emissions_emitNext]

theorem full_poll {history : List EvtxRecord} {isMatch : EvtxRecord → Bool} (tail : PollingTail)
    {p : Poll} {first last : Nat} {diagnostics : List Text} {providerGaps : List EvtxCoverageGap}
    (houtcome : p.outcome = .ok (first, last, diagnostics, providerGaps))
    (hfull : eventFetchBatch ≤ (p.returned history isMatch).length) :
    ∃ emission, (poll hash toLowercase channel fallbackGap history isMatch tail p).tail.emissions =
        tail.tail.emissions ++ [emission] ∧
      Tells (saturationGap channel) emission.batch.coverageGaps ∧
      (diagnostics.length + providerGaps.length < maxTailCoverageGaps - 1 →
        saturationGap channel ∈ emission.batch.coverageGaps) := by
  rw [Poll.returned, houtcome] at hfull
  rw [poll, houtcome]
  dsimp only at hfull ⊢
  generalize hscan : queryChannel history isMatch first last diagnostics providerGaps = scan at *
  have hdelivered : scan.delivered ≥ eventFetchBatch := by
    rw [← hscan] at hfull ⊢
    exact hfull
  have hgaps : scan.gaps = diagnostics.foldl pushBoundedTailCoverageGap [] := by rw [← hscan]; rfl
  have hprovider : scan.providerGaps = providerGaps := by rw [← hscan]; rfl
  have hcoalesced : Coalesced scan.gaps := by
    rw [hgaps]
    exact coalesced_foldl _ (.room (by decide))
  have htells := @tells_pollingGaps channel fallbackGap tail scan
    (keepProviderGaps toLowercase tail.providerGapDedup scan.providerGaps).2 hcoalesced hdelivered
  have hnonempty : pollingGaps channel fallbackGap tail scan
      (keepProviderGaps toLowercase tail.providerGapDedup scan.providerGaps).2 ≠ [] := by
    intro hnil
    rw [hnil] at htells
    cases htells with
    | carries hmem => exact absurd hmem List.not_mem_nil
    | counts entries omitted hone hmax hlength hnone =>
      exact List.append_ne_nil_of_right_ne_nil entries (List.cons_ne_nil _ _) hnone.symm
  rw [emissions_onScan rfl hnonempty]
  refine ⟨_, rfl, tells_pushMissing _ htells, fun hfew => ?_⟩
  have hlength := @length_keepProviderGaps toLowercase tail.providerGapDedup scan.providerGaps
  refine mem_of_mem_kept (mem_kept_pushMissing _ (mem_pollingGaps tail _ hdelivered ?_))
  rw [hprovider] at hlength
  rw [hgaps, foldl_push_of_lt _ (by rw [List.length_nil]; omega), hprovider, List.nil_append]
  omega

/-- Every record that a poll returns is in one batch, once, and so is every matching
record that is there at a poll which is not full; and the batch of a full poll says that
it was full, unless the diagnostics of that poll fill the list, where it is counted. -/
theorem runPolls_once (hash : HashedPayload → UInt64) (toLowercase : Text → Text)
    (channel fallbackGap : Text) (history : List EvtxRecord) (isMatch : EvtxRecord → Bool)
    (polls : List Poll)
    (hkeys : ((history.filter isMatch).map (pollingRecordIdentity hash)).Nodup)
    (hslides : Slides 0 0 polls) :
    (∀ p ∈ polls, ∀ r ∈ p.returned history isMatch,
      (runPolls hash toLowercase channel fallbackGap history isMatch polls).emitted.count r = 1) ∧
    (∀ p ∈ polls, (p.returned history isMatch).length < eventFetchBatch →
      ∀ r ∈ p.present history isMatch,
        (runPolls hash toLowercase channel fallbackGap history isMatch polls).emitted.count r =
          1) ∧
    ∀ before p after, polls = before ++ p :: after →
      ∀ first last diagnostics providerGaps,
      p.outcome = .ok (first, last, diagnostics, providerGaps) →
      eventFetchBatch ≤ (p.returned history isMatch).length →
      ∃ emission,
        (runPolls hash toLowercase channel fallbackGap history isMatch
          (before ++ [p])).tail.emissions =
          (runPolls hash toLowercase channel fallbackGap history isMatch before).tail.emissions ++
            [emission] ∧
        Tells (saturationGap channel) emission.batch.coverageGaps ∧
        (diagnostics.length + providerGaps.length < maxTailCoverageGaps - 1 →
          saturationGap channel ∈ emission.batch.coverageGaps) := by
  have hstart : Once hash (history.filter isMatch) {} (windowStart history isMatch 0 0)
      (matchesBefore history isMatch 0) := by
    have hzero : windowStart history isMatch 0 0 = 0 := by simp [windowStart, matchesBefore]
    rw [hzero]
    exact once_nil _
  obtain ⟨hnodup, -, hreturned⟩ :=
    @once_polls hash toLowercase channel fallbackGap _ _ hkeys _ _ _ _ hstart hslides
  refine ⟨fun p hp r hr => ?_, fun p hp hroom r hr => ?_, ?_⟩
  · exact List.count_eq_one_of_mem hnodup (hreturned p hp hr)
  · exact List.count_eq_one_of_mem hnodup (hreturned p hp (present_subset_returned hroom hr))
  · intro before p after _ first last diagnostics providerGaps houtcome hfull
    have hrun : runPolls hash toLowercase channel fallbackGap history isMatch (before ++ [p]) =
        poll hash toLowercase channel fallbackGap history isMatch
          (runPolls hash toLowercase channel fallbackGap history isMatch before) p :=
      List.foldl_append
    rw [hrun]
    exact full_poll _ houtcome hfull

end Saturation

/-! ## A full poll with many diagnostics -/

def numberedRecord (n : Nat) : EvtxRecord where
  eventRecordId := n
  eventRecordIdText := none
  timestamp := []
  timestampEpoch := 0
  provider := []
  channel := []
  eventId := 1
  level := .information
  computer := []
  message := []
  eventData := []
  rawXml := ['x']
  sourceLabel := []
  task := none
  opcode := none
  processId := none
  threadId := none
  userSid := none
  keywords := none

def numberedHistory (n : Nat) : List EvtxRecord := (List.range n).map numberedRecord

def numberedPoll (last diagnostics : Nat) : Poll where
  outcome := .ok (0, last, (List.range diagnostics).map decimal, [])
  emitError := none

theorem numbered_identities (n : Nat) : (((numberedHistory n).filter fun _ => true).map
    (pollingRecordIdentity fun _ => 0)).Nodup := by
  rw [List.filter_true, numberedHistory, List.map_map]
  refine List.nodup_range.map fun a b h => ?_
  exact decimal_injective (congrArg Prod.fst h)

theorem runPolls_once_numbered :
    (runPolls (fun _ => 0) id ['c'] [] (numberedHistory 2) (fun _ => true)
      [numberedPoll 1 0, numberedPoll 2 0]).emitted.count (numberedRecord 0) = 1 :=
  (runPolls_once (fun _ => 0) id ['c'] [] (numberedHistory 2) (fun _ => true)
    [numberedPoll 1 0, numberedPoll 2 0] (numbered_identities 2) (by simp [Slides, numberedPoll])).1
    (numberedPoll 1 0) List.mem_cons_self (numberedRecord 0) (by decide +kernel)

theorem full_poll_coalesced {hash : HashedPayload → UInt64} {toLowercase : Text → Text}
    {channel : Text} {history : List EvtxRecord} {isMatch : EvtxRecord → Bool} {p : Poll}
    {first last : Nat} {diagnostics : List Text}
    (houtcome : p.outcome = .ok (first, last, diagnostics, []))
    (hlength : diagnostics.length = maxTailCoverageGaps - 1)
    (hfull : eventFetchBatch ≤ (p.returned history isMatch).length) :
    ∃ emission, (poll hash toLowercase channel [] history isMatch {} p).tail.emissions =
      [emission] ∧ emission.batch.coverageGaps = diagnostics ++ [summaryText 1] := by
  rw [Poll.returned, houtcome] at hfull
  rw [poll, houtcome]
  dsimp only at hfull ⊢
  have hgaps : (queryChannel history isMatch first last diagnostics []).gaps = diagnostics := by
    show diagnostics.foldl pushBoundedTailCoverageGap [] = diagnostics
    rw [foldl_push_of_lt diagnostics (by rw [List.length_nil, hlength]; decide), List.nil_append]
  have hpush : pushBoundedTailCoverageGap diagnostics (saturationGap channel) =
      diagnostics ++ [summaryText 1] := by
    rw [pushBoundedTailCoverageGap, if_neg (by omega), if_pos hlength]
  have hpolling : pollingGaps channel [] {} (queryChannel history isMatch first last diagnostics [])
      (keepProviderGaps toLowercase {} []).2 = diagnostics ++ [summaryText 1] := by
    have hdelivered : (queryChannel history isMatch first last diagnostics []).delivered ≥
        eventFetchBatch := hfull
    rw [pollingGaps, if_pos hdelivered, if_neg (fun h => h.2 rfl), hgaps]
    exact hpush
  exact ⟨_, emissions_onScan hpolling
    (List.append_ne_nil_of_right_ne_nil _ (List.cons_ne_nil _ _)) p.emitError, rfl⟩

/-- The batch of a full poll need not say so itself. -/
theorem saturationGap_coalesced :
    ¬ ∀ polls : List Poll, Slides 0 0 polls → ∀ before p after, polls = before ++ p :: after →
      eventFetchBatch ≤ (p.returned (numberedHistory 256) fun _ => true).length →
      ∀ emission,
        (runPolls (fun _ => 0) id ['c'] [] (numberedHistory 256) (fun _ => true)
          (before ++ [p])).tail.emissions =
          (runPolls (fun _ => 0) id ['c'] [] (numberedHistory 256) (fun _ => true)
            before).tail.emissions ++ [emission] →
        saturationGap ['c'] ∈ emission.batch.coverageGaps := by
  intro h
  have hfull : ((numberedPoll 256 255).returned (numberedHistory 256) fun _ => true).length =
      eventFetchBatch := by
    simp only [Poll.returned, numberedPoll, queryChannel, numberedHistory, List.length_take,
      List.length_reverse, List.filter_true, List.length_drop, List.length_map, List.length_range]
    decide
  obtain ⟨emission, hemissions, hgaps⟩ := @full_poll_coalesced (fun _ => 0) id ['c'] _ _
    (numberedPoll 256 255) _ _ _ rfl (by rw [List.length_map, List.length_range]; decide) hfull.ge
  have hmem := h [numberedPoll 256 255] (by simp [Slides, numberedPoll]) [] _ [] rfl hfull.ge
    emission hemissions
  rw [hgaps] at hmem
  exact absurd hmem (by decide +kernel)

end LiveTail
end CmTrace
