import CmTrace.Text.Basic

/-!
# Text in any case

A text is folded to lower case, and two folded characters are one letter when
they agree in upper case.  A map files a text under the upper case expansions of
its folded characters with a separator between them, and the key is the same for
exactly the texts that the comparison takes for one.
-/

namespace CmTrace
namespace Redaction

open Text

/-- A control character that stands between the expansions of a key. -/
def separator : Char := Char.ofNat 1

/-- The case mappings of the character tables: every character expands to
something, and the separator comes from itself alone. -/
structure CaseMapping where
  toLowercase : Char → Text
  toUppercase : Char → Text
  toLowercase_ne_nil : ∀ c, toLowercase c ≠ []
  toUppercase_ne_nil : ∀ c, toUppercase c ≠ []
  toUppercase_separator : toUppercase separator = [separator]
  eq_separator : ∀ c, separator ∈ toUppercase c → c = separator

/-- A folded character with the bytes of the character it came from. -/
structure FoldedChar where
  folded : Char
  sourceStart : Nat
  sourceEnd : Nat
  deriving DecidableEq, Repr

variable (mapping : CaseMapping)

/-- The folded characters of a text that begins at `offset`. -/
def foldFrom : Nat → Text → List FoldedChar
  | _, [] => []
  | offset, source :: rest =>
    let sourceEnd := offset + source.utf8Size
    (mapping.toLowercase source).map (fun folded =>
      { folded := folded, sourceStart := offset, sourceEnd := sourceEnd }) ++
      foldFrom sourceEnd rest

def foldWithOffsets (value : Text) : List FoldedChar := foldFrom mapping 0 value

def foldedCharsEqual (left right : Char) : Bool :=
  left == right || mapping.toUppercase left == mapping.toUppercase right

def caselessEqual (left right : Text) : Bool :=
  let left := foldWithOffsets mapping left
  let right := foldWithOffsets mapping right
  left.length == right.length &&
    (left.zip right).all fun pair => foldedCharsEqual mapping pair.1.folded pair.2.folded

def caselessKey (value : Text) : Text :=
  join [separator] ((foldWithOffsets mapping value).map fun character =>
    mapping.toUppercase character.folded)

/-! ## Folded characters -/

def fold (value : Text) : Text := value.flatMap mapping.toLowercase

variable {mapping}

@[simp] theorem fold_cons (c : Char) (rest : Text) :
    fold mapping (c :: rest) = mapping.toLowercase c ++ fold mapping rest := by
  rw [fold, List.flatMap_cons, fold]

@[simp] theorem fold_append (a b : Text) :
    fold mapping (a ++ b) = fold mapping a ++ fold mapping b := by
  rw [fold, List.flatMap_append, fold, fold]

theorem map_folded_foldFrom (offset : Nat) (value : Text) :
    (foldFrom mapping offset value).map FoldedChar.folded = fold mapping value := by
  induction value generalizing offset with
  | nil => rfl
  | cons c rest ih =>
    rw [foldFrom, List.map_append, ih, List.map_map, fold_cons]
    show (mapping.toLowercase c).map id ++ fold mapping rest = _
    rw [List.map_id]

theorem foldedCharsEqual_iff {left right : Char} :
    foldedCharsEqual mapping left right = true ↔
      mapping.toUppercase left = mapping.toUppercase right := by
  rw [foldedCharsEqual, Bool.or_eq_true, beq_iff_eq, beq_iff_eq]
  constructor
  · rintro (rfl | h)
    · rfl
    · exact h
  · exact Or.inr

theorem zip_all_iff {A B B' C : Type} (same : A → A → Bool) {image : A → C} (f : B → A)
    (g : B' → A) (hsame : ∀ a b, same a b = true ↔ image a = image b) (xs : List B)
    (ys : List B') :
    (xs.length == ys.length && (xs.zip ys).all fun pair => same (f pair.1) (g pair.2)) = true ↔
      (xs.map f).map image = (ys.map g).map image := by
  induction xs generalizing ys with
  | nil =>
    cases ys with
    | nil => exact iff_of_true rfl rfl
    | cons y ys =>
      constructor
      · intro h
        cases h
      · intro h
        cases h
  | cons x xs ih =>
    cases ys with
    | nil =>
      constructor
      · intro h
        cases h
      · intro h
        cases h
    | cons y ys =>
      have hrest := ih ys
      rw [Bool.and_eq_true, beq_iff_eq] at hrest ⊢
      rw [List.length_cons, List.length_cons, List.zip_cons_cons, List.all_cons, Bool.and_eq_true,
        Nat.add_right_cancel_iff, hsame, List.map_cons, List.map_cons, List.map_cons, List.map_cons,
        List.cons.injEq, ← hrest]
      constructor
      · rintro ⟨hlen, hxy, hall⟩
        exact ⟨hxy, hlen, hall⟩
      · rintro ⟨hxy, hlen, hall⟩
        exact ⟨hlen, hxy, hall⟩

theorem caselessEqual_iff (left right : Text) :
    caselessEqual mapping left right = true ↔
      (fold mapping left).map mapping.toUppercase =
        (fold mapping right).map mapping.toUppercase := by
  have hzip := zip_all_iff (foldedCharsEqual mapping) FoldedChar.folded FoldedChar.folded
    (fun a b => foldedCharsEqual_iff) (foldWithOffsets mapping left) (foldWithOffsets mapping right)
  rw [foldWithOffsets, foldWithOffsets, map_folded_foldFrom, map_folded_foldFrom] at hzip
  exact hzip

/-! ## Keys -/

/-- A piece of a key: the separator itself, or something without it. -/
def Piece (piece : Text) : Prop := piece ≠ [] ∧ (separator ∈ piece → piece = [separator])

def afterPiece : List Text → Text
  | [] => []
  | pieces => separator :: join [separator] pieces

theorem join_cons_piece (piece : Text) (pieces : List Text) :
    join [separator] (piece :: pieces) = piece ++ afterPiece pieces := by
  cases pieces with
  | nil => exact (List.append_nil piece).symm
  | cons next pieces =>
    show piece ++ [separator] ++ join [separator] (next :: pieces) =
      piece ++ separator :: join [separator] (next :: pieces)
    rw [List.append_assoc, List.singleton_append]

theorem takeWhile_afterPiece (pieces : List Text) :
    (afterPiece pieces).takeWhile (fun c => c != separator) = [] := by
  cases pieces with
  | nil => rfl
  | cons next pieces =>
    show (separator :: _).takeWhile _ = []
    rw [List.takeWhile_cons_of_neg]
    rw [bne_self_eq_false]
    exact Bool.false_ne_true

theorem takeWhile_piece {piece : Text} (h : separator ∉ piece) (pieces : List Text) :
    (piece ++ afterPiece pieces).takeWhile (fun c => c != separator) = piece := by
  rw [List.takeWhile_append_of_pos, takeWhile_afterPiece, List.append_nil]
  intro c hc
  rw [bne_iff_ne]
  rintro rfl
  exact h hc

theorem piece_eq_of_append {p q : Text} {ps qs : List Text} (hp : Piece p) (hq : Piece q)
    (h : p ++ afterPiece ps = q ++ afterPiece qs) : p = q := by
  -- a separator in front is a piece of its own
  have hsep : ∀ {p q : Text} {ps qs : List Text}, Piece p → Piece q →
      p ++ afterPiece ps = q ++ afterPiece qs → separator ∈ p → separator ∈ q := by
    intro p q ps qs hp hq h hmem
    rw [hp.2 hmem] at h
    cases q with
    | nil => exact absurd rfl hq.1
    | cons c q =>
      rw [List.singleton_append, List.cons_append] at h
      rw [(List.cons.inj h).1]
      exact List.mem_cons_self
  by_cases hmem : separator ∈ p
  · rw [hp.2 hmem, hq.2 (hsep hp hq h hmem)]
  · have hmem' : separator ∉ q := fun hq' => hmem (hsep hq hp h.symm hq')
    rw [← takeWhile_piece hmem ps, h, takeWhile_piece hmem' qs]

theorem join_injective {ps qs : List Text} (hps : ∀ p ∈ ps, Piece p) (hqs : ∀ q ∈ qs, Piece q)
    (h : join [separator] ps = join [separator] qs) : ps = qs := by
  induction ps generalizing qs with
  | nil =>
    cases qs with
    | nil => rfl
    | cons q qs =>
      rw [join_cons_piece] at h
      exact absurd (List.append_eq_nil_iff.mp h.symm).1 (hqs q List.mem_cons_self).1
  | cons p ps ih =>
    cases qs with
    | nil =>
      rw [join_cons_piece] at h
      exact absurd (List.append_eq_nil_iff.mp h).1 (hps p List.mem_cons_self).1
    | cons q qs =>
      rw [join_cons_piece, join_cons_piece] at h
      obtain rfl := piece_eq_of_append (hps p List.mem_cons_self) (hqs q List.mem_cons_self) h
      have hafter : afterPiece ps = afterPiece qs := List.append_cancel_left h
      have hrest : ps = qs := by
        cases ps with
        | nil =>
          cases qs with
          | nil => rfl
          | cons q' qs => cases hafter
        | cons p' ps =>
          cases qs with
          | nil => cases hafter
          | cons q' qs =>
            exact ih (fun r hr => hps r (List.mem_cons_of_mem _ hr))
              (fun r hr => hqs r (List.mem_cons_of_mem _ hr)) (List.cons.inj hafter).2
      rw [hrest]

theorem piece_toUppercase (c : Char) : Piece (mapping.toUppercase c) := by
  refine ⟨mapping.toUppercase_ne_nil c, fun h => ?_⟩
  rw [mapping.eq_separator c h, mapping.toUppercase_separator]

theorem caselessKey_eq (value : Text) :
    caselessKey mapping value =
      join [separator] ((fold mapping value).map mapping.toUppercase) := by
  rw [caselessKey, ← map_folded_foldFrom 0 value, List.map_map, foldWithOffsets]
  rfl

variable (mapping)

/-- The key decides whether two texts are one in any case. -/
theorem caselessKey_eq_iff (a b : Text) :
    caselessKey mapping a = caselessKey mapping b ↔ caselessEqual mapping a b = true := by
  have hpieces : ∀ value : Text, ∀ p ∈ (fold mapping value).map mapping.toUppercase, Piece p := by
    intro value p hp
    obtain ⟨c, -, rfl⟩ := List.mem_map.mp hp
    exact piece_toUppercase c
  rw [caselessKey_eq, caselessKey_eq, caselessEqual_iff]
  constructor
  · exact join_injective (hpieces a) (hpieces b)
  · exact congrArg (join [separator])

/-! ## A few letters -/

def caseTable (table : List (Char × Text)) (c : Char) : Text := (table.lookup c).getD [c]

theorem caseTable_cases (table : List (Char × Text)) (c : Char) :
    caseTable table c = [c] ∨ ∃ entry ∈ table, entry.1 = c ∧ caseTable table c = entry.2 := by
  rw [caseTable]
  cases hlookup : table.lookup c with
  | none => exact Or.inl rfl
  | some expansion =>
    obtain ⟨before, after, rfl, -⟩ := List.lookup_eq_some_iff.mp hlookup
    exact Or.inr ⟨(c, expansion), List.mem_append_right _ List.mem_cons_self, rfl, rfl⟩

def lowerTable : List (Char × Text) := [('S', ['s']), ('Σ', ['σ']), ('İ', ['i', '\u0307'])]

def upperTable : List (Char × Text) :=
  [('i', ['I']), ('s', ['S']), ('σ', ['Σ']), ('ς', ['Σ']), ('ß', ['S', 'S'])]

theorem caseTable_ne_nil {table : List (Char × Text)} (h : ∀ entry ∈ table, entry.2 ≠ [])
    (c : Char) : caseTable table c ≠ [] := by
  rcases caseTable_cases table c with hself | ⟨entry, hentry, -, hexpansion⟩
  · rw [hself]
    exact List.cons_ne_nil _ _
  · rw [hexpansion]
    exact h entry hentry

/-- The sigmas, the sharp s, the dotted I and two plain letters. -/
def fewLetters : CaseMapping where
  toLowercase := caseTable lowerTable
  toUppercase := caseTable upperTable
  toLowercase_ne_nil := caseTable_ne_nil (by decide)
  toUppercase_ne_nil := caseTable_ne_nil (by decide)
  toUppercase_separator := by decide
  eq_separator c h := by
    rcases caseTable_cases upperTable c with hself | ⟨entry, hentry, -, hexpansion⟩
    · rw [hself] at h
      exact (List.mem_singleton.mp h).symm
    · have hnone : ∀ entry ∈ upperTable, separator ∉ entry.2 := by decide
      rw [hexpansion] at h
      exact absurd h (hnone entry hentry)

example :
    caselessEqual fewLetters ['Σ'] ['ς'] = true ∧
    caselessEqual fewLetters ['ß'] ['S', 'S'] = false ∧
    caselessKey fewLetters ['ß'] ≠ caselessKey fewLetters ['S', 'S'] := by
  decide +kernel

end Redaction
end CmTrace
