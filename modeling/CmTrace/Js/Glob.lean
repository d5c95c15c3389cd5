import CmTrace.Js.Text

/-!
# File name patterns

A pattern is cut at its stars and the segments are looked for from the left, the
first one at the start and the last one at the end.  Taking the leftmost place of a
segment leaves the most text for the others, so nothing has to be tried again.
-/

namespace CmTrace
namespace Js

section

variable {A : Type} [DecidableEq A]

def split (separator : A) : List A → List (List A)
  | [] => [[]]
  | c :: rest =>
    if c = separator then [] :: split separator rest
    else match split separator rest with
      | piece :: pieces => (c :: piece) :: pieces
      | [] => [[c]]

def indexFrom (needle : List A) : Nat → List A → Option Nat
  | pos, [] => if needle.isPrefixOf [] then some pos else none
  | pos, c :: rest =>
    if needle.isPrefixOf (c :: rest) then some pos else indexFrom needle (pos + 1) rest

def indexOf (s needle : List A) (pos : Nat) : Option Nat := indexFrom needle pos (s.drop pos)

def matchSegments (lower : List A) (last : Nat) : Nat → Nat → List (List A) → Bool
  | _, _, [] => true
  | i, pos, seg :: segs =>
    if seg = [] then matchSegments lower last (i + 1) pos segs
    else if i = 0 then
      seg.isPrefixOf lower && matchSegments lower last (i + 1) seg.length segs
    else if i = last then
      -- the last segment does not overlap what was matched before it
      seg.isSuffixOf lower && !decide (lower.length - seg.length < pos) &&
        matchSegments lower last (i + 1) pos segs
    else match indexOf lower seg pos with
      | some idx => matchSegments lower last (i + 1) (idx + seg.length) segs
      | none => false

end

def star : UInt16 := unit '*'

def matchesAnyPattern (toLowerCase : JsString → JsString) (name : JsString)
    (patterns : List JsString) : Bool :=
  if patterns = [] then true
  else
    let lower := toLowerCase name
    patterns.any fun p =>
      if p = [star] then true
      else
        let lowerP := toLowerCase p
        if lowerP.contains star then
          let segments := split star lowerP
          matchSegments lower (segments.length - 1) 0 0 segments
        else lower == lowerP

/-! ## The language of a pattern -/

/-- The name is cut into pieces: a star stands for any piece, everything else for
itself. -/
inductive Globs {A : Type} (star : A) : List A → List A → Prop where
  | nil : Globs star [] []
  | self {c : A} {p s : List A} : c ≠ star → Globs star p s → Globs star (c :: p) (c :: s)
  | gap {p s : List A} (piece : List A) : Globs star p s → Globs star (star :: p) (piece ++ s)

section

variable {A : Type}

def Spaced : List (List A) → List A → Prop
  | [], s => s = []
  | seg :: segs, s => ∃ gap rest, s = gap ++ (seg ++ rest) ∧ Spaced segs rest

theorem spaced_prepend {segs : List (List A)} (h : segs ≠ []) (front : List A) {s : List A}
    (hs : Spaced segs s) : Spaced segs (front ++ s) := by
  cases segs with
  | nil => exact absurd rfl h
  | cons seg segs =>
    obtain ⟨gap, rest, rfl, hrest⟩ := hs
    exact ⟨front ++ gap, rest, (List.append_assoc _ _ _).symm, hrest⟩

theorem spaced_empty {segs : List (List A)} (h : segs ≠ []) (s : List A) :
    Spaced ([] :: segs) s ↔ Spaced segs s := by
  constructor
  · rintro ⟨gap, rest, rfl, hrest⟩
    exact spaced_prepend h gap hrest
  · intro hs
    exact ⟨[], s, rfl, hs⟩

theorem spaced_last (seg s : List A) : Spaced [seg] s ↔ seg <:+ s := by
  constructor
  · rintro ⟨gap, rest, rfl, rfl⟩
    exact ⟨gap, by rw [List.append_nil]⟩
  · rintro ⟨gap, rfl⟩
    exact ⟨gap, [], by rw [List.append_nil], rfl⟩

theorem spaced_leftmost {seg gap rest : List A} {segs : List (List A)} (hsegs : segs ≠ [])
    (hleft : ∀ gap' rest', gap ++ (seg ++ rest) = gap' ++ (seg ++ rest') →
      gap.length ≤ gap'.length) :
    Spaced (seg :: segs) (gap ++ (seg ++ rest)) ↔ Spaced segs rest := by
  constructor
  · rintro ⟨gap', rest', heq, hspaced⟩
    have hle := hleft gap' rest' heq
    have hlen := congrArg List.length heq
    rw [List.length_append, List.length_append, List.length_append, List.length_append] at hlen
    have hsuffix : rest' <:+ rest := by
      have hall : rest <:+ gap ++ (seg ++ rest) := by
        rw [← List.append_assoc]
        exact List.suffix_append _ _
      have hall' : rest' <:+ gap ++ (seg ++ rest) := by
        rw [heq, ← List.append_assoc]
        exact List.suffix_append _ _
      exact List.suffix_of_suffix_length_le hall' hall (by omega)
    obtain ⟨front, rfl⟩ := hsuffix
    exact spaced_prepend hsegs front hspaced
  · exact fun hspaced => ⟨gap, rest, rfl, hspaced⟩

variable [DecidableEq A]

theorem split_ne_nil (separator : A) (s : List A) : split separator s ≠ [] := by
  cases s with
  | nil => exact List.cons_ne_nil _ _
  | cons c rest =>
    rw [split]
    split_ifs
    · exact List.cons_ne_nil _ _
    · split <;> exact List.cons_ne_nil _ _

theorem split_separator (separator : A) (s : List A) :
    split separator (separator :: s) = [] :: split separator s := by
  rw [split, if_pos rfl]

theorem split_other {separator c : A} (h : c ≠ separator) {s piece : List A}
    {pieces : List (List A)} (hs : split separator s = piece :: pieces) :
    split separator (c :: s) = (c :: piece) :: pieces := by
  rw [split, if_neg h, hs]

theorem globs_iff_spaced {star : A} {p : List A} : ∀ {first : List A} {segs : List (List A)},
    split star p = first :: segs →
      ∀ s, Globs star p s ↔ ∃ rest, s = first ++ rest ∧ Spaced segs rest := by
  induction p with
  | nil =>
    intro first segs hsplit s
    obtain ⟨rfl, rfl⟩ := List.cons.inj hsplit
    constructor
    · intro h
      cases h
      exact ⟨[], rfl, rfl⟩
    · rintro ⟨rest, rfl, rfl⟩
      exact .nil
  | cons c p ih =>
    intro first segs hsplit s
    obtain ⟨piece, pieces, hp⟩ := List.exists_cons_of_ne_nil (split_ne_nil star p)
    by_cases hc : c = star
    · subst hc
      rw [split_separator, hp] at hsplit
      obtain ⟨rfl, rfl⟩ := List.cons.inj hsplit
      constructor
      · intro h
        cases h with
        | self hne => exact absurd rfl hne
        | gap gap hrest =>
          obtain ⟨rest, rfl, hspaced⟩ := (ih hp _).mp hrest
          exact ⟨_, rfl, gap, rest, rfl, hspaced⟩
      · rintro ⟨_, rfl, gap, rest, rfl, hspaced⟩
        exact .gap gap ((ih hp _).mpr ⟨rest, rfl, hspaced⟩)
    · rw [split_other hc hp] at hsplit
      obtain ⟨rfl, rfl⟩ := List.cons.inj hsplit
      constructor
      · intro h
        cases h with
        | gap => exact absurd rfl hc
        | self _ hrest =>
          obtain ⟨rest, rfl, hspaced⟩ := (ih hp _).mp hrest
          exact ⟨rest, rfl, hspaced⟩
      · rintro ⟨rest, rfl, hspaced⟩
        exact .self hc ((ih hp _).mpr ⟨rest, rfl, hspaced⟩)

theorem globs_plain {star : A} {p : List A} (h : star ∉ p) (s : List A) :
    Globs star p s ↔ s = p := by
  have hsplit : ∀ {p : List A}, star ∉ p → split star p = [p] := by
    intro p
    induction p with
    | nil => exact fun _ => rfl
    | cons c p ih =>
      intro h
      rw [List.mem_cons, not_or] at h
      exact split_other (Ne.symm h.1) (ih h.2)
  rw [globs_iff_spaced (hsplit h)]
  constructor
  · rintro ⟨rest, rfl, rfl⟩
    exact List.append_nil p
  · rintro rfl
    exact ⟨[], (List.append_nil s).symm, rfl⟩

theorem length_split {star : A} {p : List A} (h : star ∈ p) : 2 ≤ (split star p).length := by
  induction p with
  | nil => cases h
  | cons c p ih =>
    obtain ⟨piece, pieces, hp⟩ := List.exists_cons_of_ne_nil (split_ne_nil star p)
    by_cases hc : c = star
    · rw [hc, split_separator, hp]
      exact Nat.le_add_left _ _
    · rw [List.mem_cons, or_iff_right (Ne.symm hc)] at h
      have hlen := ih h
      rw [hp] at hlen
      rw [split_other hc hp]
      exact hlen

/-! ## The leftmost place -/

theorem indexFrom_eq_some {needle : List A} {pos idx : Nat} {s : List A}
    (h : indexFrom needle pos s = some idx) :
    ∃ gap rest, s = gap ++ (needle ++ rest) ∧ idx = pos + gap.length ∧
      ∀ gap' rest', s = gap' ++ (needle ++ rest') → gap.length ≤ gap'.length := by
  have hhere : ∀ {s : List A} {pos : Nat}, needle.isPrefixOf s = true →
      ∃ gap rest, s = gap ++ (needle ++ rest) ∧ pos = pos + gap.length ∧
        ∀ gap' rest', s = gap' ++ (needle ++ rest') → gap.length ≤ gap'.length := by
    intro s pos hpre
    obtain ⟨rest, rfl⟩ := List.isPrefixOf_iff_prefix.mp hpre
    exact ⟨[], rest, rfl, rfl, fun _ _ _ => Nat.zero_le _⟩
  induction s generalizing pos with
  | nil =>
    rw [indexFrom] at h
    split_ifs at h with hpre
    cases h
    exact hhere hpre
  | cons c s ih =>
    rw [indexFrom] at h
    split_ifs at h with hpre
    · cases h
      exact hhere hpre
    · obtain ⟨gap, rest, rfl, rfl, hleft⟩ := ih h
      refine ⟨c :: gap, rest, rfl, by rw [List.length_cons]; omega, fun gap' rest' heq => ?_⟩
      cases gap' with
      | nil => exact absurd (List.isPrefixOf_iff_prefix.mpr ⟨rest', heq.symm⟩) hpre
      | cons d gap' => exact Nat.succ_le_succ (hleft gap' rest' (List.cons.inj heq).2)

theorem indexFrom_eq_none {needle : List A} {pos : Nat} {s : List A}
    (h : indexFrom needle pos s = none) (gap rest : List A) : s ≠ gap ++ (needle ++ rest) := by
  induction s generalizing pos gap with
  | nil =>
    rw [indexFrom] at h
    split_ifs at h with hpre
    intro heq
    obtain ⟨rfl, hneedle⟩ := List.append_eq_nil_iff.mp heq.symm
    exact hpre (List.isPrefixOf_iff_prefix.mpr ⟨rest, hneedle⟩)
  | cons c s ih =>
    rw [indexFrom] at h
    split_ifs at h with hpre
    intro heq
    cases gap with
    | nil => exact hpre (List.isPrefixOf_iff_prefix.mpr ⟨rest, heq.symm⟩)
    | cons d gap => exact ih h gap (List.cons.inj heq).2

/-! ## The matcher -/

/-- The segments after the first one, matched greedily, are spaced in what is left of
the name. -/
theorem matchSegments_spaced {lower : List A} {last : Nat} (segs : List (List A)) :
    ∀ {i pos : Nat}, 0 < i → segs ≠ [] → i + segs.length = last + 1 → pos ≤ lower.length →
      (matchSegments lower last i pos segs = true ↔ Spaced segs (lower.drop pos)) := by
  induction segs with
  | nil =>
    intro i pos _ hne
    exact absurd rfl hne
  | cons seg segs ih =>
    intro i pos hi _ hlast hpos
    rw [List.length_cons] at hlast
    rw [matchSegments]
    by_cases hnil : segs = []
    · -- the last segment
      subst hnil
      have hi' : i = last := by
        rw [List.length_nil] at hlast
        omega
      rw [spaced_last, matchSegments, matchSegments]
      by_cases hseg : seg = []
      · rw [if_pos hseg, hseg]
        exact iff_of_true rfl List.nil_suffix
      · rw [if_neg hseg, if_neg (by omega), if_pos hi', Bool.and_true, Bool.and_eq_true,
          List.isSuffixOf_iff_suffix, Bool.not_eq_true', decide_eq_false_iff_not, Nat.not_lt]
        constructor
        · rintro ⟨hsuffix, hroom⟩
          refine List.suffix_of_suffix_length_le hsuffix (List.drop_suffix _ _) ?_
          have hle := hsuffix.length_le
          rw [List.length_drop]
          omega
        · intro hsuffix
          have hle := hsuffix.length_le
          rw [List.length_drop] at hle
          exact ⟨hsuffix.trans (List.drop_suffix _ _), by omega⟩
    · have hlen : 0 < segs.length := List.length_pos_of_ne_nil hnil
      by_cases hseg : seg = []
      · rw [if_pos hseg, hseg, spaced_empty hnil, ih (by omega) hnil (by omega) hpos]
      · rw [if_neg hseg, if_neg (by omega), if_neg (by omega)]
        cases hidx : indexOf lower seg pos with
        | none =>
          refine iff_of_false Bool.false_ne_true ?_
          rintro ⟨gap, rest, heq, _⟩
          exact indexFrom_eq_none hidx gap rest heq
        | some idx =>
          obtain ⟨gap, rest, heq, rfl, hleft⟩ := indexFrom_eq_some hidx
          have hdrop : lower.drop (pos + gap.length + seg.length) = rest := by
            rw [Nat.add_assoc, ← List.drop_drop, heq, ← List.append_assoc, ← List.length_append,
              List.drop_left]
          have hfits : pos + gap.length + seg.length ≤ lower.length := by
            have hlen := congrArg List.length heq
            rw [List.length_drop, List.length_append, List.length_append] at hlen
            omega
          rw [heq] at hleft
          rw [heq, spaced_leftmost hnil hleft, ← hdrop]
          exact ih (by omega) hnil (by omega) hfits

theorem matchSegments_iff {star : A} {p : List A} (hstar : star ∈ p) (lower : List A) :
    matchSegments lower ((split star p).length - 1) 0 0 (split star p) = true ↔
      Globs star p lower := by
  obtain ⟨first, segs, hsplit⟩ := List.exists_cons_of_ne_nil (split_ne_nil star p)
  have hlen := length_split hstar
  rw [hsplit, List.length_cons] at hlen
  have hnil : segs ≠ [] := List.ne_nil_of_length_pos (by omega)
  have hrest : ∀ {pos : Nat}, pos ≤ lower.length →
      (matchSegments lower segs.length 1 pos segs = true ↔ Spaced segs (lower.drop pos)) :=
    fun hpos => matchSegments_spaced segs (by omega) hnil (by omega) hpos
  rw [globs_iff_spaced hsplit, hsplit, List.length_cons, Nat.add_sub_cancel, matchSegments]
  by_cases hfirst : first = []
  · rw [if_pos hfirst, hrest (Nat.zero_le _), hfirst]
    constructor
    · exact fun hspaced => ⟨lower, rfl, hspaced⟩
    · rintro ⟨rest, rfl, hspaced⟩
      exact hspaced
  · rw [if_neg hfirst, if_pos rfl, Bool.and_eq_true, List.isPrefixOf_iff_prefix]
    constructor
    · rintro ⟨⟨rest, rfl⟩, hspaced⟩
      rw [hrest (by rw [List.length_append]; omega), List.drop_left] at hspaced
      exact ⟨rest, rfl, hspaced⟩
    · rintro ⟨rest, rfl, hspaced⟩
      rw [hrest (by rw [List.length_append]; omega), List.drop_left]
      exact ⟨List.prefix_append _ _, hspaced⟩

end

/-- A name passes when the list is empty or it is in the language of some pattern. -/
theorem matchesAnyPattern_iff {toLowerCase : JsString → JsString}
    (hstar : toLowerCase [star] = [star]) (name : JsString) (patterns : List JsString) :
    matchesAnyPattern toLowerCase name patterns = true ↔
      patterns = [] ∨ ∃ p ∈ patterns, Globs star (toLowerCase p) (toLowerCase name) := by
  have hone : ∀ p : JsString, (if p = [star] then true
      else if (toLowerCase p).contains star then
        matchSegments (toLowerCase name) ((split star (toLowerCase p)).length - 1) 0 0
          (split star (toLowerCase p))
      else toLowerCase name == toLowerCase p) = true ↔
        Globs star (toLowerCase p) (toLowerCase name) := by
    intro p
    split_ifs with hp hcontains
    · rw [hp, hstar]
      refine iff_of_true rfl ?_
      have hgap : Globs star [star] (toLowerCase name ++ []) := .gap (toLowerCase name) .nil
      rwa [List.append_nil] at hgap
    · exact matchSegments_iff (List.contains_iff_mem.mp hcontains) _
    · rw [globs_plain (fun hmem => hcontains (List.contains_iff_mem.mpr hmem)), beq_iff_eq]
  rw [matchesAnyPattern]
  split_ifs with hnil
  · exact iff_of_true rfl (.inl hnil)
  · rw [or_iff_right hnil, List.any_eq_true]
    exact exists_congr fun p => and_congr_right fun _ => hone p

def asciiLowerCase (s : JsString) : JsString :=
  s.map fun u => if 65 ≤ u.toNat ∧ u.toNat ≤ 90 then u + 32 else u

theorem matchesAnyPattern_iff_ascii :
    matchesAnyPattern asciiLowerCase (js "AppWorkload-1.log") [js "*.LOG", js "app*load*"] = true ↔
      [js "*.LOG", js "app*load*"] = [] ∨ ∃ p ∈ [js "*.LOG", js "app*load*"],
        Globs star (asciiLowerCase p) (asciiLowerCase (js "AppWorkload-1.log")) :=
  matchesAnyPattern_iff (by decide) (js "AppWorkload-1.log") [js "*.LOG", js "app*load*"]

example : matchesAnyPattern asciiLowerCase (js "a.log") [js "a*.*og", js "x"] = true := by decide

example : matchesAnyPattern asciiLowerCase (js "aba") [js "ab*ba"] = false := by decide

end Js
end CmTrace
