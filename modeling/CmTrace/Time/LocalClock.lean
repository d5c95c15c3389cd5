import Mathlib

/-!
# Wall clocks of a zone

A zone is an offset on whole seconds that changes seldom.  A wall clock that the zone
shows once is placed where it is shown, one that it shows again is not placed, and one
that it skips is placed at the end of the gap, which is found by halving.  Where no
change sets the clock back further than changes are apart, later wall clocks are not
placed earlier.
-/

namespace CmTrace
namespace Time

/-! ## Offsets that change seldom -/

def Changes (offset : Int → Int) (t : Int) : Prop := offset (t - 1) ≠ offset t

def Spaced (w : Int) (offset : Int → Int) : Prop :=
  ∀ t t', Changes offset t → Changes offset t' → t < t' → t + w ≤ t'

def SetsBackBy (w : Int) (offset : Int → Int) : Prop := ∀ t, offset (t - 1) ≤ offset t + w

section

variable {offset : Int → Int} {w : Int}

theorem exists_last_change {s s' : Int} (hle : s ≤ s') :
    (∀ r, s ≤ r → r ≤ s' → offset r = offset s') ∨
      ∃ t, s < t ∧ t ≤ s' ∧ Changes offset t ∧ ∀ r, t ≤ r → r ≤ s' → offset r = offset s' := by
  induction s', hle using Int.leInduction with
  | base => exact .inl fun r hr hr' => by rw [le_antisymm hr' hr]
  | succ s' hle ih =>
    by_cases hsame : offset s' = offset (s' + 1)
    · have hnext : ∀ {t : Int}, (∀ r, t ≤ r → r ≤ s' → offset r = offset s') →
          ∀ r, t ≤ r → r ≤ s' + 1 → offset r = offset (s' + 1) := by
        intro t h r hr hr'
        rcases Int.le_iff_lt_or_eq.mp hr' with hlt | rfl
        · rw [h r hr (Int.lt_add_one_iff.mp hlt), hsame]
        · rfl
      rcases ih with h | ⟨t, hst, hts, hchange, h⟩
      · exact .inl (hnext h)
      · exact .inr ⟨t, hst, by omega, hchange, hnext h⟩
    · refine .inr ⟨s' + 1, by omega, le_refl _, ?_, fun r hr hr' => by rw [le_antisymm hr' hr]⟩
      rw [Changes, add_sub_cancel_right]
      exact hsame

theorem exists_first_change {s s' : Int} (hle : s ≤ s') :
    (∀ r, s ≤ r → r ≤ s' → offset r = offset s) ∨
      ∃ t, s < t ∧ t ≤ s' ∧ Changes offset t ∧ ∀ r, s ≤ r → r < t → offset r = offset s := by
  induction s', hle using Int.leInduction with
  | base => exact .inl fun r hr hr' => by rw [le_antisymm hr' hr]
  | succ s' hle ih =>
    rcases ih with h | ⟨t, hst, hts, hchange, h⟩
    · by_cases hsame : offset s' = offset (s' + 1)
      · refine .inl fun r hr hr' => ?_
        rcases Int.le_iff_lt_or_eq.mp hr' with hlt | rfl
        · exact h r hr (Int.lt_add_one_iff.mp hlt)
        · rw [← hsame, h s' hle (le_refl _)]
      · refine .inr ⟨s' + 1, by omega, le_refl _, ?_, fun r hr hr' => h r hr (by omega)⟩
        rw [Changes, add_sub_cancel_right]
        exact hsame
    · exact .inr ⟨t, hst, by omega, hchange, h⟩

theorem clock_ge_of_change (hspaced : Spaced w offset) (hback : SetsBackBy w offset) {t s : Int}
    (ht : Changes offset t) (hle : t ≤ s) : t + offset t ≤ s + offset s := by
  -- the last change up to `s` carries the bound, and another is far from it
  have hlast : ∃ t', t ≤ t' ∧ t' ≤ s ∧ Changes offset t' ∧ offset t' = offset s ∧
      t + offset t ≤ t' + offset t' := by
    induction s, hle using Int.leInduction with
    | base => exact ⟨t, le_refl _, le_refl _, ht, rfl, le_refl _⟩
    | succ s hle ih =>
      obtain ⟨t', htt, hts, hchange, hsame, hbound⟩ := ih
      by_cases hkeep : offset s = offset (s + 1)
      · exact ⟨t', htt, by omega, hchange, hsame.trans hkeep, hbound⟩
      · have hnext : Changes offset (s + 1) := by
          rw [Changes, add_sub_cancel_right]
          exact hkeep
        have hfar := hspaced t' (s + 1) hchange hnext (by omega)
        have hstep := hback (s + 1)
        rw [add_sub_cancel_right] at hstep
        exact ⟨s + 1, by omega, le_refl _, hnext, rfl, by omega⟩
  obtain ⟨t', -, hts, -, hsame, hbound⟩ := hlast
  omega

theorem clock_lt_of_change (hspaced : Spaced w offset) (hback : SetsBackBy w offset) {t s : Int}
    (ht : Changes offset t) (hlt : s < t) : s + offset s < t + offset (t - 1) := by
  have hfirst : ∃ t', s < t' ∧ t' ≤ t ∧ Changes offset t' ∧ offset (t' - 1) = offset s ∧
      t' + offset (t' - 1) ≤ t + offset (t - 1) := by
    have hle : s ≤ t - 1 := by omega
    clear hlt
    induction s, hle using Int.leInductionDown with
    | base => exact ⟨t, by omega, le_refl _, ht, rfl, le_refl _⟩
    | pred s hle ih =>
      obtain ⟨t', hst, htt, hchange, hsame, hbound⟩ := ih
      by_cases hkeep : offset (s - 1) = offset s
      · exact ⟨t', by omega, htt, hchange, hsame.trans hkeep.symm, hbound⟩
      · have hfar := hspaced s t' hkeep hchange hst
        have hstep := hback s
        exact ⟨s, by omega, by omega, hkeep, rfl, by omega⟩
  obtain ⟨t', hst, -, -, hsame, hbound⟩ := hfirst
  omega

theorem exists_gap {bound : Int} (hbound : ∀ s, -bound < offset s ∧ offset s < bound) {clock : Int}
    (hnot : ∀ s, s + offset s ≠ clock) :
    ∃ t, t + offset (t - 1) ≤ clock ∧ clock < t + offset t := by
  by_contra hnone
  have hbelow : ∀ s, clock - bound ≤ s → s + offset s < clock := by
    intro s hle
    induction s, hle using Int.leInduction with
    | base =>
      have hfirst := (hbound (clock - bound)).2
      omega
    | succ s hle ih =>
      by_contra hge
      refine hnone ⟨s + 1, ?_, ?_⟩
      · rw [add_sub_cancel_right]
        omega
      · have hne := hnot (s + 1)
        omega
  have hpos := hbound clock
  have hlast := hbelow (clock + bound) (by omega)
  have hlow := (hbound (clock + bound)).1
  omega

end

/-! ## Zones -/

/-- A zone, in seconds to add to universal time. -/
structure TimeZone where
  offsetAt : Int → Int
  bounded : ∀ t, -86400 < offsetAt t ∧ offsetAt t < 86400
  spaced : Spaced 10800 offsetAt

/-- What the wall clock of a zone shows at an instant, both in nanoseconds. -/
def TimeZone.wallClock (zone : TimeZone) (instant : Int) : Int :=
  instant + zone.offsetAt (instant / 1000000000) * 1000000000

inductive LocalResult where
  | none
  | single (instant : Int)
  | ambiguous (earliest latest : Int)
  deriving DecidableEq, Repr

def LocalResult.earliest : LocalResult → Option Int
  | none                 => Option.none
  | single instant       => some instant
  | ambiguous earliest _ => some earliest

/-- A zone and how the calendar library resolves its wall clocks. -/
structure LocalZone extends TimeZone where
  resolve : Int → LocalResult
  resolve_none : ∀ clock, resolve clock = .none ↔ ∀ u, toTimeZone.wallClock u ≠ clock
  resolve_single : ∀ clock u, resolve clock = .single u ↔
    toTimeZone.wallClock u = clock ∧ ∀ v, toTimeZone.wallClock v = clock → v = u
  resolve_ambiguous : ∀ clock e l, resolve clock = .ambiguous e l →
    e < l ∧ toTimeZone.wallClock e = clock ∧ toTimeZone.wallClock l = clock ∧
      ∀ v, toTimeZone.wallClock v = clock → e ≤ v ∧ v ≤ l

def timestampMillis (instant : Int) : Int := instant / 1000000

section

variable (zone : LocalZone)

/-- The boundary between two instants from which on the zone has an offset. -/
def bisectMillis (postGapOffset low high : Int) : Int :=
  if 1 < high - low then
    let middle := low + (high - low) / 2
    if zone.offsetAt (middle / 1000) = postGapOffset then bisectMillis postGapOffset low middle
    else bisectMillis postGapOffset middle high
  else high
termination_by (high - low).toNat

def gapTransitionMillis (naive : Int) : Option Int :=
  let hour := 3600 * 1000000000
  (zone.resolve (naive - hour)).earliest.bind fun before =>
    (zone.resolve (naive + hour)).earliest.bind fun after =>
      let postGapOffset := zone.offsetAt (after / 1000000000)
      if zone.offsetAt (before / 1000000000) = postGapOffset then none
      else some (bisectMillis zone postGapOffset (timestampMillis before) (timestampMillis after))

def localWallClockMillis (naive : Int) : Option Int :=
  match zone.resolve naive with
  | .single value  => some (timestampMillis value)
  | .ambiguous _ _ => none
  | .none          => gapTransitionMillis zone naive

end

/-! ## Clocks and seconds -/

section

variable {zone : LocalZone}

theorem wallClock_eq_iff {u clock : Int} : zone.wallClock u = clock ↔
    u / 1000000000 + zone.offsetAt (u / 1000000000) = clock / 1000000000 ∧
      u % 1000000000 = clock % 1000000000 := by
  rw [TimeZone.wallClock]
  generalize zone.offsetAt (u / 1000000000) = o
  omega

theorem exists_shows {s clock : Int} (h : s + zone.offsetAt s = clock / 1000000000) :
    zone.wallClock (s * 1000000000 + clock % 1000000000) = clock ∧
      (s * 1000000000 + clock % 1000000000) / 1000000000 = s := by
  have hsecond : (s * 1000000000 + clock % 1000000000) / 1000000000 = s := by omega
  refine ⟨?_, hsecond⟩
  rw [wallClock_eq_iff, hsecond]
  exact ⟨h, by omega⟩

theorem earliest_shows {clock u : Int} (h : (zone.resolve clock).earliest = some u) :
    zone.wallClock u = clock ∧ ∀ v, zone.wallClock v = clock → u ≤ v := by
  cases hresolve : zone.resolve clock with
  | none =>
    rw [hresolve] at h
    cases h
  | single u' =>
    rw [hresolve] at h
    cases h
    obtain ⟨hshows, honly⟩ := (zone.resolve_single clock u).mp hresolve
    exact ⟨hshows, fun v hv => (honly v hv).ge⟩
  | ambiguous e l =>
    rw [hresolve] at h
    cases h
    obtain ⟨-, hshows, -, hleast⟩ := zone.resolve_ambiguous clock u l hresolve
    exact ⟨hshows, fun v hv => (hleast v hv).1⟩

theorem exists_earliest {clock u : Int} (h : zone.wallClock u = clock) :
    ∃ e, (zone.resolve clock).earliest = some e := by
  cases hresolve : zone.resolve clock with
  | none => exact absurd h ((zone.resolve_none clock).mp hresolve u)
  | single u' => exact ⟨u', rfl⟩
  | ambiguous e l => exact ⟨e, rfl⟩

/-! ## The end of a gap -/

theorem bisectMillis_eq {postGapOffset low high t : Int} (hlow : low < t * 1000)
    (hhigh : t * 1000 ≤ high)
    (hbefore : ∀ s, low / 1000 ≤ s → s < t → zone.offsetAt s ≠ postGapOffset)
    (hafter : ∀ s, t ≤ s → s ≤ high / 1000 → zone.offsetAt s = postGapOffset) :
    bisectMillis zone postGapOffset low high = t * 1000 := by
  fun_induction bisectMillis zone postGapOffset low high with
  | case1 low high hlt middle hsame ih =>
    have hmiddle : low / 1000 ≤ middle / 1000 := by omega
    have hlate : t ≤ middle / 1000 := by
      by_contra hearly
      exact hbefore _ hmiddle (by omega) hsame
    exact ih hlow (by omega) hbefore fun s hs hs' => hafter s hs (by omega)
  | case2 low high hlt middle hother ih =>
    have hmiddle : middle / 1000 ≤ high / 1000 := by omega
    have hearly : middle / 1000 < t := by
      by_contra hlate
      exact hother (hafter _ (by omega) hmiddle)
    exact ih (by omega) hhigh (fun s hs hs' => hbefore s (by omega) hs') hafter
  | case3 low high hle => omega

/-- A gap in the clocks of a zone, before the second `t`. -/
structure Gap (zone : LocalZone) (t clock : Int) : Prop where
  lower : t + zone.offsetAt (t - 1) ≤ clock / 1000000000
  upper : clock / 1000000000 < t + zone.offsetAt t

theorem Gap.changes {t clock : Int} (h : Gap zone t clock) : Changes zone.offsetAt t := by
  have hlower := h.lower
  have hupper := h.upper
  rw [Changes]
  omega

theorem offset_after_change {t s : Int} (ht : Changes zone.offsetAt t) (hle : t ≤ s)
    (hlt : s < t + 10800) : zone.offsetAt s = zone.offsetAt t := by
  rcases @exists_first_change zone.offsetAt _ _ hle with h | ⟨t', htt, hts, hchange, -⟩
  · exact h s hle (le_refl s)
  · have hfar := zone.spaced t t' ht hchange htt
    omega

theorem offset_before_change {t s : Int} (ht : Changes zone.offsetAt t) (hlt : s < t)
    (hle : t - 10800 ≤ s) : zone.offsetAt s = zone.offsetAt (t - 1) := by
  have hle' : s ≤ t - 1 := by omega
  rcases @exists_last_change zone.offsetAt _ _ hle' with h | ⟨t', hst, htt, hchange, -⟩
  · exact h s (le_refl s) (by omega)
  · have hfar := zone.spaced t' t hchange ht (by omega)
    omega

section

variable (hback : SetsBackBy 10800 zone.offsetAt)

include hback

theorem Gap.not_shown {t clock : Int} (h : Gap zone t clock) (u : Int) :
    zone.wallClock u ≠ clock := by
  intro hshows
  obtain ⟨hsecond, -⟩ := wallClock_eq_iff.mp hshows
  have hlower := h.lower
  have hupper := h.upper
  rcases Int.lt_or_le (u / 1000000000) t with hlt | hge
  · have hbound := clock_lt_of_change zone.spaced hback h.changes hlt
    omega
  · have hbound := clock_ge_of_change zone.spaced hback h.changes hge
    omega

theorem Gap.transition {t naive before after : Int} (h : Gap zone t naive)
    (hbefore : (zone.resolve (naive - 3600 * 1000000000)).earliest = some before)
    (hafter : (zone.resolve (naive + 3600 * 1000000000)).earliest = some after) :
    gapTransitionMillis zone naive = some (t * 1000) := by
  have hchange := h.changes
  have hlower := h.lower
  have hupper := h.upper
  obtain ⟨hshows, -⟩ := earliest_shows hbefore
  obtain ⟨hshows', hleast'⟩ := earliest_shows hafter
  obtain ⟨hsecond, -⟩ := wallClock_eq_iff.mp hshows
  obtain ⟨hsecond', -⟩ := wallClock_eq_iff.mp hshows'
  have hearly : before / 1000000000 < t := by
    by_contra hge
    have hbound := clock_ge_of_change zone.spaced hback hchange (Int.not_lt.mp hge)
    omega
  have hlate : t ≤ after / 1000000000 := by
    by_contra hlt
    have hbound := clock_lt_of_change zone.spaced hback hchange (Int.not_le.mp hlt)
    omega
  have hbound' := clock_ge_of_change zone.spaced hback hchange hlate
  -- the later probe is shown with the offset after the gap, and first there
  have hprobe : zone.offsetAt (naive / 1000000000 + 3600 - zone.offsetAt t) = zone.offsetAt t :=
    offset_after_change hchange (by omega) (by omega)
  have hafter_lt : after / 1000000000 < t + 10800 := by
    have hclock : (naive / 1000000000 + 3600 - zone.offsetAt t) +
        zone.offsetAt (naive / 1000000000 + 3600 - zone.offsetAt t) =
          (naive + 3600 * 1000000000) / 1000000000 := by
      rw [hprobe]
      omega
    obtain ⟨hshown, -⟩ := exists_shows hclock
    have hle := hleast' _ hshown
    omega
  have hpost := offset_after_change hchange hlate hafter_lt
  -- an earlier stretch with this offset ends too early to show the first probe
  have hother : ∀ s, before / 1000000000 ≤ s → s < t → zone.offsetAt s ≠ zone.offsetAt t := by
    intro s hs hst heq
    rcases exists_first_change (show s ≤ t - 1 by omega) with
      hsame | ⟨t₀, hst₀, htt₀, hchange₀, hsame⟩
    · exact hchange ((hsame (t - 1) (by omega) (le_refl _)).trans heq)
    · have hfar := zone.spaced t₀ t hchange₀ hchange (by omega)
      have hbound := clock_lt_of_change zone.spaced hback hchange₀
        (show before / 1000000000 < t₀ by omega)
      rw [hsame (t₀ - 1) (by omega) (by omega), heq] at hbound
      omega
  rw [gapTransitionMillis, hbefore, Option.bind_some, hafter, Option.bind_some, hpost,
    if_neg (hother _ (le_refl _) hearly), bisectMillis_eq (t := t)]
  · rw [timestampMillis]
    omega
  · rw [timestampMillis]
    omega
  · intro s hs hst
    rw [timestampMillis] at hs
    exact hother s (by omega) hst
  · intro s hts hs
    rw [timestampMillis] at hs
    exact offset_after_change hchange hts (by omega)

theorem Gap.placed {t naive : Int} (h : Gap zone t naive)
    (hhour : zone.offsetAt t ≤ zone.offsetAt (t - 1) + 3600) :
    localWallClockMillis zone naive = some (t * 1000) := by
  have hchange := h.changes
  have hlower := h.lower
  have hupper := h.upper
  have hbefore : zone.offsetAt (naive / 1000000000 - 3600 - zone.offsetAt (t - 1)) =
      zone.offsetAt (t - 1) := offset_before_change hchange (by omega) (by omega)
  have hafter : zone.offsetAt (naive / 1000000000 + 3600 - zone.offsetAt t) = zone.offsetAt t :=
    offset_after_change hchange (by omega) (by omega)
  have hclock : (naive / 1000000000 - 3600 - zone.offsetAt (t - 1)) +
      zone.offsetAt (naive / 1000000000 - 3600 - zone.offsetAt (t - 1)) =
        (naive - 3600 * 1000000000) / 1000000000 := by
    rw [hbefore]
    omega
  have hclock' : (naive / 1000000000 + 3600 - zone.offsetAt t) +
      zone.offsetAt (naive / 1000000000 + 3600 - zone.offsetAt t) =
        (naive + 3600 * 1000000000) / 1000000000 := by
    rw [hafter]
    omega
  obtain ⟨before, hbefore⟩ := exists_earliest (exists_shows hclock).1
  obtain ⟨after, hafter⟩ := exists_earliest (exists_shows hclock').1
  have hnone := (zone.resolve_none naive).mpr (h.not_shown hback)
  rw [localWallClockMillis, hnone]
  exact h.transition hback hbefore hafter

/-! ## Order -/

theorem placed_cases {clock millis : Int} (h : localWallClockMillis zone clock = some millis) :
    (∃ u, zone.resolve clock = .single u ∧ millis = timestampMillis u) ∨
      ∃ t, Gap zone t clock ∧ millis = t * 1000 := by
  rw [localWallClockMillis] at h
  cases hresolve : zone.resolve clock with
  | single u =>
    rw [hresolve] at h
    exact .inl ⟨u, rfl, (Option.some_inj.mp h).symm⟩
  | ambiguous e l =>
    rw [hresolve] at h
    cases h
  | none =>
    rw [hresolve] at h
    have hnot : ∀ s, s + zone.offsetAt s ≠ clock / 1000000000 := fun s hs =>
      (zone.resolve_none clock).mp hresolve _ (exists_shows hs).1
    obtain ⟨t, hlower, hupper⟩ := exists_gap zone.bounded hnot
    have hgap : Gap zone t clock := ⟨hlower, hupper⟩
    have hprobes := h
    rw [gapTransitionMillis] at hprobes
    obtain ⟨before, hbefore, hprobes⟩ := Option.bind_eq_some_iff.mp hprobes
    obtain ⟨after, hafter, -⟩ := Option.bind_eq_some_iff.mp hprobes
    have htransition := hgap.transition hback hbefore hafter
    exact .inr ⟨t, hgap, Option.some_inj.mp (h.symm.trans htransition)⟩

theorem single_le {a b u v : Int} (hab : a ≤ b) (hu : zone.resolve a = .single u)
    (hv : zone.resolve b = .single v) : u ≤ v := by
  obtain ⟨hshows, honly⟩ := (zone.resolve_single a u).mp hu
  obtain ⟨hshows', -⟩ := (zone.resolve_single b v).mp hv
  obtain ⟨hsecond, hrest⟩ := wallClock_eq_iff.mp hshows
  obtain ⟨hsecond', hrest'⟩ := wallClock_eq_iff.mp hshows'
  by_contra hlt
  -- the offset at `v` would show the earlier clock a second time
  have hsame : zone.offsetAt (a / 1000000000 - zone.offsetAt (v / 1000000000)) =
      zone.offsetAt (v / 1000000000) := by
    rcases exists_last_change (show a / 1000000000 - zone.offsetAt (v / 1000000000) ≤
      v / 1000000000 by omega) with h | ⟨t, hst, htv, hchange, h⟩
    · exact h _ (le_refl _) (by omega)
    · have hbound := clock_ge_of_change zone.spaced hback hchange
        (show t ≤ u / 1000000000 by omega)
      rw [h t (le_refl _) htv] at hbound
      omega
  have hclock : (a / 1000000000 - zone.offsetAt (v / 1000000000)) +
      zone.offsetAt (a / 1000000000 - zone.offsetAt (v / 1000000000)) = a / 1000000000 := by
    rw [hsame]
    omega
  have hagain := honly _ (exists_shows hclock).1
  omega

theorem localWallClockMillis_le {a b m n : Int} (hab : a ≤ b)
    (ha : localWallClockMillis zone a = some m) (hb : localWallClockMillis zone b = some n) :
    m ≤ n := by
  rcases placed_cases hback ha with ⟨u, hu, rfl⟩ | ⟨t, ht, rfl⟩
  · rcases placed_cases hback hb with ⟨v, hv, rfl⟩ | ⟨t, ht, rfl⟩
    · have hle := single_le hback hab hu hv
      rw [timestampMillis, timestampMillis]
      omega
    · obtain ⟨hsecond, -⟩ := wallClock_eq_iff.mp ((zone.resolve_single a u).mp hu).1
      have hupper := ht.upper
      have hlt : u / 1000000000 < t := by
        by_contra hge
        have hbound := clock_ge_of_change zone.spaced hback ht.changes (Int.not_lt.mp hge)
        omega
      rw [timestampMillis]
      omega
  · have hlower := ht.lower
    rcases placed_cases hback hb with ⟨v, hv, rfl⟩ | ⟨t', ht', rfl⟩
    · obtain ⟨hsecond, -⟩ := wallClock_eq_iff.mp ((zone.resolve_single b v).mp hv).1
      have hle : t ≤ v / 1000000000 := by
        by_contra hlt
        have hbound := clock_lt_of_change zone.spaced hback ht.changes (Int.not_le.mp hlt)
        omega
      rw [timestampMillis]
      omega
    · have hupper := ht'.upper
      have hle : t ≤ t' := by
        by_contra hlt
        have hbound := clock_ge_of_change zone.spaced hback ht'.changes
          (show t' ≤ t - 1 by omega)
        omega
      omega

end

end

/-! ## Zones with finitely many offsets -/

def showings (zone : TimeZone) (offsets : List Int) (clock : Int) : List Int :=
  (offsets.map fun o => clock - o * 1000000000).filter fun u => zone.wallClock u == clock

theorem mem_showings {zone : TimeZone} {offsets : List Int} (h : ∀ t, zone.offsetAt t ∈ offsets)
    {clock u : Int} : u ∈ showings zone offsets clock ↔ zone.wallClock u = clock := by
  rw [showings, List.mem_filter, beq_iff_eq]
  refine ⟨fun hu => hu.2, fun hu => ⟨List.mem_map.mpr ⟨_, h (u / 1000000000), ?_⟩, hu⟩⟩
  rw [← hu, TimeZone.wallClock]
  omega

def resolveIn (showings : List Int) : LocalResult :=
  match showings.min?, showings.max? with
  | some earliest, some latest =>
    if earliest = latest then .single earliest else .ambiguous earliest latest
  | _, _ => .none

theorem resolveIn_cases (us : List Int) :
    (us = [] ∧ resolveIn us = .none) ∨
      ∃ e l, e ∈ us ∧ l ∈ us ∧ (∀ u ∈ us, e ≤ u ∧ u ≤ l) ∧
        resolveIn us = if e = l then .single e else .ambiguous e l := by
  rw [resolveIn]
  cases hmin : us.min? with
  | none => exact .inl ⟨List.min?_eq_none_iff.mp hmin, rfl⟩
  | some e =>
    obtain ⟨he, hle⟩ := List.min?_eq_some_iff.mp hmin
    cases hmax : us.max? with
    | none =>
      rw [List.max?_eq_none_iff.mp hmax] at he
      cases he
    | some l =>
      obtain ⟨hl, hge⟩ := List.max?_eq_some_iff.mp hmax
      exact .inr ⟨e, l, he, hl, fun u hu => ⟨hle u hu, hge u hu⟩, rfl⟩

def LocalZone.ofOffsets (zone : TimeZone) (offsets : List Int)
    (h : ∀ t, zone.offsetAt t ∈ offsets) : LocalZone where
  toTimeZone := zone
  resolve clock := resolveIn (showings zone offsets clock)
  resolve_none clock := by
    simp only [ne_eq, ← mem_showings h]
    rcases resolveIn_cases (showings zone offsets clock) with ⟨hnil, hnone⟩ | ⟨e, l, he, -, -, hres⟩
    · rw [hnil]
      exact iff_of_true rfl fun u hu => absurd hu List.not_mem_nil
    · refine iff_of_false (fun hnone => ?_) (fun hnot => hnot e he)
      rw [hres] at hnone
      split_ifs at hnone
  resolve_single clock u := by
    simp only [← mem_showings h]
    rcases resolveIn_cases (showings zone offsets clock) with
      ⟨hnil, hnone⟩ | ⟨e, l, he, hl, hbetween, hres⟩
    · rw [hnone, hnil]
      exact iff_of_false (fun hsingle => nomatch hsingle) fun hu => absurd hu.1 List.not_mem_nil
    · rw [hres]
      constructor
      · intro hsingle
        split_ifs at hsingle with heq
        cases hsingle
        exact ⟨he, fun v hv => le_antisymm (heq ▸ (hbetween v hv).2) (hbetween v hv).1⟩
      · rintro ⟨-, honly⟩
        rw [if_pos ((honly e he).trans (honly l hl).symm), honly e he]
  resolve_ambiguous clock e l hambiguous := by
    simp only [← mem_showings h]
    rcases resolveIn_cases (showings zone offsets clock) with
      ⟨-, hnone⟩ | ⟨e', l', he, hl, hbetween, hres⟩
    · rw [hnone] at hambiguous
      cases hambiguous
    · rw [hres] at hambiguous
      split_ifs at hambiguous with heq
      cases hambiguous
      exact ⟨lt_of_le_of_ne (hbetween l hl).1 heq, he, hl, hbetween⟩

def springForward : TimeZone where
  offsetAt t := if t < 1710064800 then -28800 else -25200
  bounded t := by split_ifs <;> decide
  spaced t t' h h' hlt := by
    simp only [Changes] at h h'
    split_ifs at h h' <;> omega

def springZone : LocalZone := .ofOffsets springForward [-28800, -25200] fun t => by
  simp only [springForward]
  split_ifs <;> decide

/-- Changes three hours apart that set the clock ten hours forward, ten hours back and
twenty hours forward. -/
def jumping : TimeZone where
  offsetAt t := if t < 0 then 0 else if t < 10800 then 36000 else if t < 21600 then 0 else 72000
  bounded t := by split_ifs <;> decide
  spaced t t' h h' hlt := by
    have hchange : ∀ {s : Int}, Changes (fun t => if t < 0 then 0 else if t < 10800 then 36000
        else if t < 21600 then 0 else 72000) s → s = 0 ∨ s = 10800 ∨ s = 21600 := by
      intro s hs
      simp only [Changes] at hs
      split_ifs at hs <;> omega
    have h := hchange h
    have h' := hchange h'
    omega

def jumpingZone : LocalZone := .ofOffsets jumping [0, 36000, 72000] fun t => by
  simp only [jumping]
  split_ifs <;> decide

end Time
end CmTrace
