import CmTrace.Redaction.Caseless
import CmTrace.Text.Basic

/-!
# Finding a literal in any case

A folded literal is searched in the folded view of a text, one folded character
after the other.  A match begins and ends with whole characters of the source, and
the search reports the first one.
-/

namespace CmTrace
namespace Redaction

open Text

variable (mapping : CaseMapping)

def endsSourceCharacter (last : FoldedChar) (next : Option FoldedChar) : Bool :=
  next.all fun next => next.sourceStart != last.sourceStart

def scanFrom (haystack literal : Text) : Option FoldedChar → List FoldedChar → Option (Nat × Nat)
  | _, [] => none
  | previous, foldedChar :: rest =>
    let start := foldedChar.sourceStart
    -- a match does not begin within the expansion of a character
    if previous.any fun before => before.sourceStart == start then
      scanFrom haystack literal (some foldedChar) rest
    else if literal.isPrefixOf (dropBytes start haystack) then
      some (start, start + byteLen literal)
    else if (foldedChar :: rest).length < literal.length then none
    else
      let window := (foldedChar :: rest).take literal.length
      let last := window.getLast?.getD foldedChar
      let next := ((foldedChar :: rest).drop literal.length).head?
      if endsSourceCharacter last next &&
          (window.zip literal).all (fun pair => foldedCharsEqual mapping pair.1.folded pair.2) then
        some (start, last.sourceEnd)
      else scanFrom haystack literal (some foldedChar) rest

def findIgnoreCase (haystack literal : Text) (folded : List FoldedChar) (offset : Nat) :
    Option (Nat × Nat) :=
  if literal = [] then none
  else
    let first := (folded.takeWhile fun foldedChar => foldedChar.sourceStart < offset).length
    scanFrom mapping haystack literal (folded.take first).getLast? (folded.drop first)

/-! ## What is searched for -/

def Folded (literal : Text) : Prop := fold mapping literal = literal

def Covers (haystack literal : Text) (range : Nat × Nat) : Prop :=
  ∃ before piece after, haystack = before ++ piece ++ after ∧
    range = (byteLen before, byteLen (before ++ piece)) ∧
    caselessEqual mapping piece literal = true

variable {mapping}

theorem caselessEqual_folded {literal : Text} (h : Folded mapping literal) (piece : Text) :
    caselessEqual mapping piece literal = true ↔
      (fold mapping piece).map mapping.toUppercase = literal.map mapping.toUppercase := by
  rw [caselessEqual_iff, h]

/-! ## The folded view -/

theorem length_foldFrom (mapping : CaseMapping) (offset : Nat) (value : Text) :
    (foldFrom mapping offset value).length = (fold mapping value).length := by
  rw [← map_folded_foldFrom offset value, List.length_map]

theorem foldFrom_append (mapping : CaseMapping) (offset : Nat) (a b : Text) :
    foldFrom mapping offset (a ++ b) =
      foldFrom mapping offset a ++ foldFrom mapping (offset + byteLen a) b := by
  induction a generalizing offset with
  | nil => rfl
  | cons c a ih =>
    rw [List.cons_append, foldFrom, foldFrom, ih, byteLen_cons, Nat.add_assoc, List.append_assoc]

theorem mem_foldFrom {offset : Nat} {value : Text} {f : FoldedChar}
    (h : f ∈ foldFrom mapping offset value) :
    offset ≤ f.sourceStart ∧ f.sourceStart < offset + byteLen value := by
  induction value generalizing offset with
  | nil => cases h
  | cons c rest ih =>
    have hpos := c.utf8Size_pos
    rw [byteLen_cons]
    rcases List.mem_append.mp h with h | h
    · obtain ⟨folded, -, rfl⟩ := List.mem_map.mp h
      dsimp only
      omega
    · have hrest := ih h
      omega

theorem foldFrom_cons (mapping : CaseMapping) (offset : Nat) (c : Char) (rest : Text) :
    ∃ first others, foldFrom mapping offset (c :: rest) =
        first :: (others ++ foldFrom mapping (offset + c.utf8Size) rest) ∧
      (first :: others).length = (mapping.toLowercase c).length ∧
      ∀ f ∈ first :: others, f.sourceStart = offset ∧ f.sourceEnd = offset + c.utf8Size := by
  cases hlower : mapping.toLowercase c with
  | nil => exact absurd hlower (mapping.toLowercase_ne_nil c)
  | cons l ls =>
    refine ⟨{ folded := l, sourceStart := offset, sourceEnd := offset + c.utf8Size },
      ls.map fun folded =>
        { folded := folded, sourceStart := offset, sourceEnd := offset + c.utf8Size }, ?_, ?_, ?_⟩
    · rw [foldFrom, hlower]
      rfl
    · rw [List.length_cons, List.length_map, List.length_cons]
    · intro f hf
      rcases List.mem_cons.mp hf with rfl | hf
      · exact ⟨rfl, rfl⟩
      · obtain ⟨folded, -, rfl⟩ := List.mem_map.mp hf
        exact ⟨rfl, rfl⟩

theorem takeWhile_foldFrom (before after : Text) :
    (foldFrom mapping 0 (before ++ after)).takeWhile
        (fun f => f.sourceStart < byteLen before) = foldFrom mapping 0 before := by
  rw [foldFrom_append, Nat.zero_add, List.takeWhile_append_of_pos]
  · have hafter : (foldFrom mapping (byteLen before) after).takeWhile
        (fun f => f.sourceStart < byteLen before) = [] := by
      cases hview : foldFrom mapping (byteLen before) after with
      | nil => rfl
      | cons f rest =>
        have hmem : f ∈ foldFrom mapping (byteLen before) after := by
          rw [hview]
          exact List.mem_cons_self
        have hle := (mem_foldFrom hmem).1
        rw [List.takeWhile_cons_of_neg]
        rw [decide_eq_true_eq]
        omega
    rw [hafter, List.append_nil]
  · intro f hf
    have hlt := (mem_foldFrom hf).2
    rw [decide_eq_true_eq]
    omega

/-! ## Windows -/

theorem getLast?_foldFrom (mapping : CaseMapping) (offset : Nat) {piece : Text} (h : piece ≠ []) :
    ∃ last, (foldFrom mapping offset piece).getLast? = some last ∧
      last.sourceStart < offset + byteLen piece ∧ last.sourceEnd = offset + byteLen piece := by
  obtain ⟨init, c, rfl⟩ : ∃ init c, piece = init ++ [c] :=
    ⟨piece.dropLast, piece.getLast h, (List.dropLast_append_getLast h).symm⟩
  obtain ⟨first, others, hview, -, hall⟩ := foldFrom_cons mapping
    (offset + byteLen init) c []
  have hlast : (foldFrom mapping offset (init ++ [c])).getLast? = (first :: others).getLast? := by
    rw [foldFrom_append, hview, foldFrom, List.append_nil, List.getLast?_append_cons]
  have hne : (first :: others) ≠ [] := List.cons_ne_nil _ _
  have hsource := hall _ (List.getLast_mem hne)
  have hpos := c.utf8Size_pos
  rw [byteLen_append, byteLen_cons, byteLen_nil]
  refine ⟨(first :: others).getLast hne, ?_, ?_, ?_⟩
  · rw [hlast, List.getLast?_eq_some_getLast hne]
  · rw [hsource.1]
    omega
  · rw [hsource.2]
    omega

theorem exists_piece {offset n : Nat} {v : Text} {last : FoldedChar}
    (hlast : ((foldFrom mapping offset v).take n).getLast? = some last)
    (hends : endsSourceCharacter last ((foldFrom mapping offset v).drop n).head? = true) :
    ∃ piece after, v = piece ++ after ∧
      (foldFrom mapping offset v).take n = foldFrom mapping offset piece ∧
      last.sourceEnd = offset + byteLen piece := by
  induction v generalizing offset n with
  | nil =>
    rw [foldFrom, List.take_nil] at hlast
    cases hlast
  | cons c v ih =>
    obtain ⟨first, others, hview, -, hall⟩ := foldFrom_cons mapping offset c v
    rw [← List.cons_append] at hview
    have hone : foldFrom mapping offset [c] = first :: others := by
      have hsplit := foldFrom_append mapping offset [c] v
      rw [List.singleton_append, hview, byteLen_cons, byteLen_nil, Nat.add_zero] at hsplit
      exact (List.append_cancel_right hsplit).symm
    rw [hview] at hlast hends ⊢
    by_cases hn : n < (first :: others).length
    · -- the character goes on behind the window
      rw [List.take_append_of_le_length (Nat.le_of_lt hn)] at hlast
      rw [List.drop_append_of_le_length (Nat.le_of_lt hn), List.drop_eq_getElem_cons hn,
        List.cons_append, List.head?_cons, endsSourceCharacter, Option.all_some] at hends
      have hlast' := (hall last (List.mem_of_mem_take (List.mem_of_getLast? hlast))).1
      have hnext := (hall _ (List.getElem_mem hn)).1
      rw [hlast', hnext, bne_self_eq_false] at hends
      cases hends
    · obtain ⟨k, rfl⟩ := Nat.exists_eq_add_of_le (Nat.not_lt.mp hn)
      rw [List.take_length_add_append] at hlast ⊢
      rw [List.drop_length_add_append] at hends
      cases hrest : ((foldFrom mapping (offset + c.utf8Size) v).take k).getLast? with
      | none =>
        rw [List.getLast?_eq_none_iff.mp hrest, List.append_nil] at hlast ⊢
        refine ⟨[c], v, rfl, hone.symm, ?_⟩
        rw [(hall last (List.mem_of_getLast? hlast)).2, byteLen_cons, byteLen_nil, Nat.add_zero]
      | some last' =>
        rw [List.getLast?_append, hrest, Option.some_or] at hlast
        obtain rfl := Option.some.inj hlast
        obtain ⟨piece, after, rfl, htake, hend⟩ := ih hrest hends
        refine ⟨c :: piece, after, rfl, ?_, ?_⟩
        · have hcons := foldFrom_append mapping offset [c] piece
          rw [List.singleton_append, hone, byteLen_cons, byteLen_nil, Nat.add_zero] at hcons
          rw [htake, hcons]
        · rw [hend, byteLen_cons, Nat.add_assoc]

theorem piece_window (mapping : CaseMapping) (offset : Nat) {piece : Text} (h : piece ≠ [])
    (after : Text) :
    (foldFrom mapping offset (piece ++ after)).take (fold mapping piece).length =
        foldFrom mapping offset piece ∧
      ∃ last, (foldFrom mapping offset piece).getLast? = some last ∧
        last.sourceEnd = offset + byteLen piece ∧
        endsSourceCharacter last
          ((foldFrom mapping offset (piece ++ after)).drop (fold mapping piece).length).head? =
          true := by
  have hlen := length_foldFrom mapping offset piece
  obtain ⟨last, hlast, hstart, hend⟩ := getLast?_foldFrom mapping offset h
  rw [foldFrom_append]
  refine ⟨List.take_left' hlen, last, hlast, hend, ?_⟩
  rw [List.drop_left' hlen, endsSourceCharacter, Option.all_eq_true]
  intro next hnext
  have hle := (mem_foldFrom (List.mem_of_head? hnext)).1
  rw [bne_iff_ne]
  omega

/-! ## The search -/

def NotHere (mapping : CaseMapping) (literal v : Text) : Prop :=
  ∀ piece after, v = piece ++ after → ¬caselessEqual mapping piece literal = true

/-- The first piece of `v`, the text after `before`, that is the literal in any
case, or that there is none. -/
def Leftmost (mapping : CaseMapping) (literal before v : Text) : Option (Nat × Nat) → Prop
  | some range => ∃ gap piece after, v = gap ++ piece ++ after ∧
      caselessEqual mapping piece literal = true ∧
      range = (byteLen (before ++ gap), byteLen (before ++ gap ++ piece)) ∧
      ∀ gap' rest, v = gap' ++ rest → gap'.length < gap.length → NotHere mapping literal rest
  | none => ∀ gap rest, v = gap ++ rest → NotHere mapping literal rest

theorem leftmost_here {literal piece : Text} (before after : Text)
    (h : caselessEqual mapping piece literal = true) :
    Leftmost mapping literal before (piece ++ after)
      (some (byteLen before, byteLen (before ++ piece))) := by
  refine ⟨[], piece, after, rfl, h, by rw [List.append_nil], ?_⟩
  intro gap' rest _ hlt
  exact absurd hlt (Nat.not_lt_zero _)

theorem leftmost_later {literal v : Text} {before : Text} {c : Char} {result : Option (Nat × Nat)}
    (hhere : NotHere mapping literal (c :: v))
    (h : Leftmost mapping literal (before ++ [c]) v result) :
    Leftmost mapping literal before (c :: v) result := by
  cases result with
  | none =>
    intro gap rest hsplit
    cases gap with
    | nil => rwa [← List.nil_append rest, ← hsplit]
    | cons d gap =>
      rw [List.cons_append] at hsplit
      exact h gap rest (List.cons.inj hsplit).2
  | some range =>
    obtain ⟨gap, piece, after, rfl, hequal, rfl, hfirst⟩ := h
    refine ⟨c :: gap, piece, after, rfl, hequal, ?_, ?_⟩
    · simp only [List.append_assoc, List.nil_append, List.cons_append]
    · intro gap' rest hsplit hlt
      cases gap' with
      | nil => rwa [← List.nil_append rest, ← hsplit]
      | cons d gap' =>
        rw [List.cons_append] at hsplit
        exact hfirst gap' rest (List.cons.inj hsplit).2 (Nat.lt_of_succ_lt_succ hlt)

theorem length_of_caselessEqual {literal piece : Text} (hliteral : Folded mapping literal)
    (h : caselessEqual mapping piece literal = true) :
    (fold mapping piece).length = literal.length := by
  have hmaps := congrArg List.length ((caselessEqual_folded hliteral piece).mp h)
  rwa [List.length_map, List.length_map] at hmaps

theorem leftmost_of_short {literal v : Text} (hliteral : Folded mapping literal)
    (h : (fold mapping v).length < literal.length) (before : Text) :
    Leftmost mapping literal before v none := by
  rintro gap _ rfl piece after rfl hequal
  have hlen := length_of_caselessEqual hliteral hequal
  rw [fold_append, fold_append, List.length_append, List.length_append] at h
  omega

theorem scanFrom_skip (mapping : CaseMapping) (haystack literal : Text) {start : Nat}
    (tail : List FoldedChar) {others : List FoldedChar}
    (hothers : ∀ f ∈ others, f.sourceStart = start) {before : FoldedChar} (hbefore : before.sourceStart = start) :
    ∃ last, last.sourceStart = start ∧
      scanFrom mapping haystack literal (some before) (others ++ tail) =
        scanFrom mapping haystack literal (some last) tail := by
  induction others generalizing before with
  | nil => exact ⟨before, hbefore, rfl⟩
  | cons f others ih =>
    have hf := hothers f List.mem_cons_self
    obtain ⟨last, hlast, hscan⟩ := ih (fun g hg => hothers g (List.mem_cons_of_mem f hg)) hf
    have hinside :
        (some before).any (fun before => before.sourceStart == f.sourceStart) = true := by
      rw [Option.any_some, beq_iff_eq, hbefore, hf]
    refine ⟨last, hlast, ?_⟩
    rw [List.cons_append, scanFrom, if_pos hinside, hscan]

def windowMatches (mapping : CaseMapping) (literal : Text) (view : List FoldedChar)
    (last : FoldedChar) : Bool :=
  endsSourceCharacter last (view.drop literal.length).head? &&
    ((view.take literal.length).zip literal).all fun pair =>
      foldedCharsEqual mapping pair.1.folded pair.2

theorem zip_window_iff {literal : Text} {window : List FoldedChar}
    (hlen : window.length = literal.length) :
    ((window.zip literal).all fun pair => foldedCharsEqual mapping pair.1.folded pair.2) = true ↔
      (window.map FoldedChar.folded).map mapping.toUppercase =
        literal.map mapping.toUppercase := by
  have hzip := zip_all_iff (foldedCharsEqual mapping) FoldedChar.folded id
    (fun a b => foldedCharsEqual_iff) window literal
  rw [hlen, beq_self_eq_true, Bool.true_and, List.map_id] at hzip
  exact hzip

theorem piece_of_windowMatches {offset : Nat} {literal v : Text} {last : FoldedChar}
    (hliteral : Folded mapping literal)
    (hlong : literal.length ≤ (foldFrom mapping offset v).length)
    (hlast : ((foldFrom mapping offset v).take literal.length).getLast? = some last)
    (h : windowMatches mapping literal (foldFrom mapping offset v) last = true) :
    ∃ piece after, v = piece ++ after ∧ caselessEqual mapping piece literal = true ∧
      last.sourceEnd = offset + byteLen piece := by
  rw [windowMatches, Bool.and_eq_true] at h
  obtain ⟨piece, after, hv, htake, hend⟩ := exists_piece hlast h.1
  refine ⟨piece, after, hv, ?_, hend⟩
  have hlen : ((foldFrom mapping offset v).take literal.length).length = literal.length := by
    rw [List.length_take]
    omega
  have hall := (zip_window_iff hlen).mp h.2
  rw [htake, map_folded_foldFrom] at hall
  exact (caselessEqual_folded hliteral piece).mpr hall

theorem windowMatches_of_piece {offset : Nat} {literal piece after : Text} {last : FoldedChar}
    (hliteral : Folded mapping literal) (hne : literal ≠ [])
    (hlast : ((foldFrom mapping offset (piece ++ after)).take literal.length).getLast? = some last)
    (h : caselessEqual mapping piece literal = true) :
    windowMatches mapping literal (foldFrom mapping offset (piece ++ after)) last = true := by
  have hlen := length_of_caselessEqual hliteral h
  have hpiece : piece ≠ [] := by
    rintro rfl
    exact hne (List.length_eq_zero_iff.mp hlen.symm)
  obtain ⟨htake, last', hlast', -, hends⟩ := piece_window mapping offset hpiece after
  rw [hlen] at htake hends
  rw [htake, hlast'] at hlast
  obtain rfl := Option.some.inj hlast
  rw [windowMatches, hends, Bool.true_and, htake, zip_window_iff (by rw [length_foldFrom, hlen]),
    map_folded_foldFrom]
  exact (caselessEqual_folded hliteral piece).mp h

theorem scanFrom_leftmost {haystack literal : Text} (hliteral : Folded mapping literal)
    (hne : literal ≠ []) (before v : Text) (hhaystack : haystack = before ++ v)
    (previous : Option FoldedChar)
    (hprevious : ∀ f ∈ previous, f.sourceStart ≠ byteLen before) :
    Leftmost mapping literal before v
      (scanFrom mapping haystack literal previous (foldFrom mapping (byteLen before) v)) := by
  induction v generalizing before previous with
  | nil =>
    have hshort : (fold mapping []).length < literal.length := List.length_pos_iff.mpr hne
    exact leftmost_of_short hliteral hshort before
  | cons c v ih =>
    obtain ⟨first, others, hview, -, hall⟩ := foldFrom_cons mapping (byteLen before) c v
    have hstart := (hall first List.mem_cons_self).1
    have houtside :
        ¬(previous.any fun f => f.sourceStart == first.sourceStart) = true := by
      rw [Option.any_eq_true]
      rintro ⟨f, hf, hsame⟩
      rw [beq_iff_eq, hstart] at hsame
      exact hprevious f hf hsame
    have hdrop : dropBytes first.sourceStart haystack = c :: v := by
      rw [hstart, hhaystack, dropBytes_byteLen]
    -- what the search does behind this character
    have hlater : NotHere mapping literal (c :: v) → Leftmost mapping literal before (c :: v)
        (scanFrom mapping haystack literal (some first)
          (others ++ foldFrom mapping (byteLen before + c.utf8Size) v)) := by
      intro hhere
      obtain ⟨last, hlast, hscan⟩ := scanFrom_skip mapping haystack literal
        (foldFrom mapping (byteLen before + c.utf8Size) v)
        (fun f hf => (hall f (List.mem_cons_of_mem first hf)).1) hstart
      have hoffset : byteLen before + c.utf8Size = byteLen (before ++ [c]) := by
        rw [byteLen_append, byteLen_cons, byteLen_nil, Nat.add_zero]
      have hpos := c.utf8Size_pos
      rw [hscan, hoffset]
      refine leftmost_later hhere (ih (before ++ [c]) ?_ (some last) ?_)
      · rw [hhaystack, List.append_assoc, List.singleton_append]
      · intro f hf
        obtain rfl := Option.some.inj hf
        rw [← hoffset, hlast]
        omega
    rw [hview, scanFrom, if_neg houtside, hdrop]
    by_cases hexact : literal.isPrefixOf (c :: v) = true
    · rw [if_pos hexact]
      obtain ⟨after, hafter⟩ := List.isPrefixOf_iff_prefix.mp hexact
      rw [← hafter, hstart, ← byteLen_append]
      exact leftmost_here before after ((caselessEqual_iff _ _).mpr rfl)
    · rw [if_neg hexact, ← hview, length_foldFrom]
      by_cases hshort : (fold mapping (c :: v)).length < literal.length
      · rw [if_pos hshort]
        exact leftmost_of_short hliteral hshort before
      · rw [if_neg hshort]
        have hlong : literal.length ≤ (foldFrom mapping (byteLen before) (c :: v)).length := by
          rw [length_foldFrom]
          omega
        obtain ⟨last, hlast⟩ : ∃ last,
            ((foldFrom mapping (byteLen before) (c :: v)).take literal.length).getLast? =
              some last := by
          rw [← Option.isSome_iff_exists, List.getLast?_isSome]
          have hpos := List.length_pos_iff.mpr hne
          intro hnil
          have hzero := congrArg List.length hnil
          rw [List.length_take, List.length_nil] at hzero
          omega
        show Leftmost mapping literal before (c :: v)
          (if windowMatches mapping literal (foldFrom mapping (byteLen before) (c :: v))
              (((foldFrom mapping (byteLen before) (c :: v)).take literal.length).getLast?.getD
                first) = true then some (first.sourceStart, _)
            else _)
        rw [hlast, Option.getD_some]
        by_cases hwindow : windowMatches mapping literal
            (foldFrom mapping (byteLen before) (c :: v)) last = true
        · rw [if_pos hwindow]
          obtain ⟨piece, after, hv, hequal, hend⟩ :=
            piece_of_windowMatches hliteral hlong hlast hwindow
          rw [hend, hstart, ← byteLen_append, hv]
          exact leftmost_here before after hequal
        · rw [if_neg hwindow]
          refine hlater fun piece after hv hequal => hwindow ?_
          rw [hv] at hlast ⊢
          exact windowMatches_of_piece hliteral hne hlast hequal

theorem prefix_of_byteLen_le {a b x y : Text} (h : a ++ x = b ++ y) (hle : byteLen a ≤ byteLen b) :
    a <+: b := by
  rcases List.append_eq_append_iff.mp h with ⟨d, hb, -⟩ | ⟨d, ha, -⟩
  · exact ⟨d, hb.symm⟩
  · -- nothing but the empty text has no bytes
    rw [ha, byteLen_append] at hle
    cases d with
    | nil =>
      rw [ha, List.append_nil]
    | cons c d =>
      have hpos := c.utf8Size_pos
      rw [byteLen_cons] at hle
      omega

theorem covers_after {haystack literal before v : Text} {range : Nat × Nat}
    (hhaystack : haystack = before ++ v) (h : Covers mapping haystack literal range)
    (hle : byteLen before ≤ range.1) :
    ∃ gap rest, v = gap ++ rest ∧ range.1 = byteLen (before ++ gap) ∧
      ¬NotHere mapping literal rest := by
  obtain ⟨start, piece, after, htext, rfl, hequal⟩ := h
  rw [hhaystack, List.append_assoc] at htext
  obtain ⟨gap, rfl⟩ := prefix_of_byteLen_le htext hle
  rw [List.append_assoc, List.append_cancel_left_eq] at htext
  exact ⟨gap, piece ++ after, htext, rfl, fun hnot => hnot piece after rfl hequal⟩

variable (mapping)

theorem findIgnoreCase_leftmost {haystack literal before v : Text}
    (hhaystack : haystack = before ++ v) (hliteral : Folded mapping literal) (hne : literal ≠ []) :
    Leftmost mapping literal before v
      (findIgnoreCase mapping haystack literal (foldWithOffsets mapping haystack)
        (byteLen before)) := by
  have hfirst : ((foldWithOffsets mapping haystack).takeWhile
      fun f => f.sourceStart < byteLen before) = foldFrom mapping 0 before := by
    rw [foldWithOffsets, hhaystack, takeWhile_foldFrom]
  have hsplit : foldWithOffsets mapping haystack =
      foldFrom mapping 0 before ++ foldFrom mapping (byteLen before) v := by
    rw [foldWithOffsets, hhaystack, foldFrom_append, Nat.zero_add]
  rw [findIgnoreCase, if_neg hne, hfirst, hsplit]
  dsimp only
  rw [List.take_left, List.drop_left]
  refine scanFrom_leftmost hliteral hne before v hhaystack _ fun f hf => ?_
  have hlt := (mem_foldFrom (List.mem_of_getLast? hf)).2
  omega

/-- The search reports the first spelling at or after the offset, or that there is
none; an empty literal is never found. -/
theorem findIgnoreCase_first (haystack literal before v : Text) (hhaystack : haystack = before ++ v)
    (hliteral : Folded mapping literal) :
    (literal = [] → findIgnoreCase mapping haystack literal (foldWithOffsets mapping haystack)
      (byteLen before) = none) ∧
    (literal ≠ [] →
      (∀ range, findIgnoreCase mapping haystack literal (foldWithOffsets mapping haystack)
          (byteLen before) = some range →
        Covers mapping haystack literal range ∧ byteLen before ≤ range.1 ∧
        ∀ other, Covers mapping haystack literal other → byteLen before ≤ other.1 →
          range.1 ≤ other.1) ∧
      (findIgnoreCase mapping haystack literal (foldWithOffsets mapping haystack)
          (byteLen before) = none →
        ∀ other, Covers mapping haystack literal other → ¬byteLen before ≤ other.1)) := by
  refine ⟨fun hempty => if_pos hempty, fun hne => ?_⟩
  have hleftmost := findIgnoreCase_leftmost mapping hhaystack hliteral hne
  constructor
  · intro range hfound
    rw [hfound] at hleftmost
    obtain ⟨gap, piece, after, hv, hequal, rfl, hfirst⟩ := hleftmost
    refine ⟨⟨before ++ gap, piece, after, ?_, rfl, hequal⟩, ?_, ?_⟩
    · rw [hhaystack, hv]
      simp only [List.append_assoc]
    · rw [byteLen_append]
      exact Nat.le_add_right _ _
    · intro other hother hle
      obtain ⟨gap', rest, hrest, hstart, hhere⟩ := covers_after hhaystack hother hle
      have hlen : gap.length ≤ gap'.length := by
        by_contra hlt
        exact hhere (hfirst gap' rest hrest (Nat.not_le.mp hlt))
      obtain ⟨d, rfl⟩ : gap <+: gap' := by
        refine List.prefix_of_prefix_length_le ⟨piece ++ after, ?_⟩ ⟨rest, hrest.symm⟩ hlen
        rw [hv, List.append_assoc]
      rw [hstart, ← List.append_assoc, byteLen_append _ d]
      exact Nat.le_add_right _ _
  · intro hnone other hother hle
    rw [hnone] at hleftmost
    obtain ⟨gap, rest, hrest, -, hhere⟩ := covers_after hhaystack hother hle
    exact hhere (hleftmost gap rest hrest)

/-- A dotted I is found by the two characters it folds to. -/
theorem findIgnoreCase_first_dotted :
    Covers fewLetters ['x', 'İ'] ['i', '\u0307'] (1, 3) ∧ byteLen ['x'] ≤ 1 := by
  have hfound := ((findIgnoreCase_first fewLetters ['x', 'İ'] ['i', '\u0307'] ['x'] ['İ'] rfl
    (by rw [Folded]; decide)).2 (List.cons_ne_nil _ _)).1 (1, 3) (by decide +kernel)
  exact ⟨hfound.1, hfound.2.1⟩

/-- The empty text is the empty literal in any case, and is not found. -/
theorem empty_literal_not_found :
    findIgnoreCase fewLetters [] [] (foldWithOffsets fewLetters []) 0 = none ∧
      Folded fewLetters [] ∧ Covers fewLetters [] [] (0, 0) :=
  ⟨rfl, rfl, [], [], [], rfl, rfl, rfl⟩

/-- Half of an expansion is no match. -/
example :
    findIgnoreCase fewLetters ['x', 'İ'] ['i'] (foldWithOffsets fewLetters ['x', 'İ']) 0 = none ∧
    findIgnoreCase fewLetters ['ς', 'Σ'] ['σ'] (foldWithOffsets fewLetters ['ς', 'Σ']) 0 =
      some (0, 2) := by
  decide +kernel

end Redaction
end CmTrace
