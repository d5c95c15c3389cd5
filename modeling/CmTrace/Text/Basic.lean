import Mathlib

/-!
# Text

A text is the list of its Unicode scalar values, and its size is counted in the
bytes of its UTF-8 form.  Whitespace is the Unicode property `White_Space`;
case is ignored for ASCII letters only.
-/

namespace CmTrace

abbrev Text := List Char

namespace Text

instance : LawfulBEq Text := inferInstanceAs (LawfulBEq (List Char))

def byteLen (s : Text) : Nat := (s.map Char.utf8Size).sum

@[simp] theorem byteLen_nil : byteLen [] = 0 := rfl

@[simp] theorem byteLen_cons (c : Char) (s : Text) : byteLen (c :: s) = c.utf8Size + byteLen s := by
  rw [byteLen, List.map_cons, List.sum_cons, byteLen]

@[simp] theorem byteLen_append (a b : Text) : byteLen (a ++ b) = byteLen a + byteLen b := by
  rw [byteLen, List.map_append, List.sum_append, byteLen, byteLen]

/-- The characters at the front whose bytes fit in `limit`. -/
def takeBytes : Nat → Text → Text
  | _, [] => []
  | limit, c :: s => if c.utf8Size ≤ limit then c :: takeBytes (limit - c.utf8Size) s else []

def dropBytes (limit : Nat) (s : Text) : Text := s.drop (takeBytes limit s).length

theorem takeBytes_prefixed (limit : Nat) (s : Text) : takeBytes limit s <+: s := by
  induction s generalizing limit with
  | nil => exact List.nil_prefix
  | cons c s ih =>
    rw [takeBytes]
    split_ifs with hc
    · exact (List.cons_prefix_cons).mpr ⟨rfl, ih _⟩
    · exact List.nil_prefix

theorem takeBytes_append_dropBytes (limit : Nat) (s : Text) :
    takeBytes limit s ++ dropBytes limit s = s := by
  obtain ⟨rest, h⟩ := takeBytes_prefixed limit s
  have hrest : dropBytes limit s = rest := by
    rw [dropBytes, ← h, List.drop_left']
    rw [h]
  rw [hrest, h]

theorem byteLen_takeBytes_le (limit : Nat) (s : Text) : byteLen (takeBytes limit s) ≤ limit := by
  induction s generalizing limit with
  | nil => exact Nat.zero_le _
  | cons c s ih =>
    rw [takeBytes]
    split_ifs with hc
    · have hrest := ih (limit - c.utf8Size)
      rw [byteLen_cons]
      omega
    · exact Nat.zero_le _

theorem takeBytes_of_le {limit : Nat} {s : Text} (h : byteLen s ≤ limit) : takeBytes limit s = s := by
  induction s generalizing limit with
  | nil => rfl
  | cons c s ih =>
    rw [byteLen_cons] at h
    rw [takeBytes, if_pos (by omega), ih (by omega)]

theorem takeBytes_append (limit : Nat) (a b : Text) :
    takeBytes limit (a ++ b) =
      if byteLen a ≤ limit then a ++ takeBytes (limit - byteLen a) b else takeBytes limit a := by
  induction a generalizing limit with
  | nil => simp
  | cons c a ih =>
    rw [List.cons_append, takeBytes, takeBytes, ih, byteLen_cons]
    by_cases hc : c.utf8Size ≤ limit
    · rw [if_pos hc, if_pos hc]
      by_cases ha : byteLen a ≤ limit - c.utf8Size
      · rw [if_pos ha, if_pos (by omega), List.cons_append, Nat.sub_sub]
      · rw [if_neg ha, if_neg (by omega)]
    · rw [if_neg hc, if_neg hc, if_neg (by omega)]

theorem takeBytes_longest {limit : Nat} {p s : Text} (hp : p <+: s) (hlen : byteLen p ≤ limit) :
    p <+: takeBytes limit s := by
  obtain ⟨rest, rfl⟩ := hp
  rw [takeBytes_append, if_pos hlen]
  exact List.prefix_append _ _

def isWhitespace (c : Char) : Bool :=
  let n := c.toNat
  decide (9 ≤ n ∧ n ≤ 13 ∨ n = 32 ∨ n = 0x85 ∨ n = 0xA0 ∨ n = 0x1680 ∨
    0x2000 ≤ n ∧ n ≤ 0x200A ∨ n = 0x2028 ∨ n = 0x2029 ∨ n = 0x202F ∨ n = 0x205F ∨ n = 0x3000)

def trimStart (s : Text) : Text := s.dropWhile isWhitespace

def trimEnd (s : Text) : Text := s.rdropWhile isWhitespace

def trim (s : Text) : Text := trimEnd (trimStart s)

def isBlank (s : Text) : Bool := s.all isWhitespace

theorem trimStart_nil_iff (s : Text) : trimStart s = [] ↔ isBlank s = true := by
  rw [trimStart, isBlank, List.dropWhile_eq_nil_iff, List.all_eq_true]

theorem trimEnd_nil_iff (s : Text) : trimEnd s = [] ↔ isBlank s = true := by
  rw [trimEnd, List.rdropWhile_eq_nil_iff, isBlank, List.all_eq_true]

theorem trim_nil_iff (s : Text) : trim s = [] ↔ isBlank s = true := by
  rw [trim, trimEnd_nil_iff]
  constructor
  · intro h
    induction s with
    | nil => rfl
    | cons c rest ih =>
      rw [trimStart, List.dropWhile_cons] at h
      split at h
      · rename_i hc
        rw [isBlank, List.all_cons, hc, Bool.true_and]
        exact ih h
      · exact h
  · intro h
    rw [(trimStart_nil_iff s).mpr h]
    rfl

theorem trimStart_trim (s : Text) : trimStart (trim s) = trim s := by
  have hhead := List.head?_dropWhile_not isWhitespace s
  obtain ⟨rest, hpre⟩ : trim s <+: trimStart s := List.rdropWhile_prefix _ _
  cases ht : trim s with
  | nil => rfl
  | cons c t =>
    rw [ht] at hpre
    rw [show s.dropWhile isWhitespace = c :: (t ++ rest) from hpre.symm] at hhead
    exact List.dropWhile_cons_of_neg (Bool.eq_false_iff.mp hhead)

theorem trim_trim (s : Text) : trim (trim s) = trim s := by
  rw [trim, trimStart_trim]
  exact List.rdropWhile_idempotent _ _

theorem trimEnd_append_of_ne_nil {a b : Text} (h : trimEnd b ≠ []) :
    trimEnd (a ++ b) = a ++ trimEnd b := by
  have hne : b.reverse.dropWhile isWhitespace ≠ [] := fun hnil => h (by
    rw [trimEnd, List.rdropWhile, hnil, List.reverse_nil])
  rw [trimEnd, trimEnd, List.rdropWhile, List.rdropWhile, List.reverse_append,
    List.dropWhile_append, if_neg (by rwa [List.isEmpty_iff]), List.reverse_append,
    List.reverse_reverse]

theorem trimEnd_append_of_eq_nil {a b : Text} (h : trimEnd b = []) :
    trimEnd (a ++ b) = trimEnd a := by
  rw [trimEnd, List.rdropWhile, List.reverse_eq_nil_iff] at h
  rw [trimEnd, trimEnd, List.rdropWhile, List.rdropWhile, List.reverse_append,
    List.dropWhile_append, if_pos (by rw [h]; rfl)]

theorem trimEnd_concat {c : Char} (h : isWhitespace c = false) (s : Text) :
    trimEnd (s ++ [c]) = s ++ [c] :=
  List.rdropWhile_concat_neg _ _ _ (Bool.eq_false_iff.mp h)

theorem trim_of_ends {c d : Char} {s : Text} (hc : isWhitespace c = false)
    (hd : isWhitespace d = false) (h : s.getLast? = some d) (hs : s.head? = some c) :
    trim s = s := by
  obtain ⟨rest, rfl⟩ := List.head?_eq_some_iff.mp hs
  obtain ⟨front, hfront⟩ := List.getLast?_eq_some_iff.mp h
  rw [trim, trimStart, List.dropWhile_cons_of_neg (Bool.eq_false_iff.mp hc), hfront,
    trimEnd_concat hd]

theorem last_of_trim {s : Text} (htrim : trim s = s) {d : Char} (hd : s.getLast? = some d) :
    isWhitespace d = false := by
  have hne : (trimStart s).rdropWhile isWhitespace ≠ [] := fun hnil => by
    rw [show s = [] from htrim.symm.trans hnil] at hd
    cases hd
  have hlast := List.rdropWhile_last_not isWhitespace (trimStart s) hne
  have hsame : ((trimStart s).rdropWhile isWhitespace).getLast hne = d := by
    rw [← Option.some_inj, ← List.getLast?_eq_some_getLast, ← hd]
    exact congrArg List.getLast? htrim
  rw [hsame] at hlast
  exact Bool.eq_false_iff.mpr hlast

theorem append_inj_of_byteLen {a b x y : Text} (h : a ++ x = b ++ y)
    (hlen : byteLen a = byteLen b) : a = b ∧ x = y := by
  induction a generalizing b with
  | nil => cases b with
    | nil => exact ⟨rfl, h⟩
    | cons c b =>
      have hpos := c.utf8Size_pos
      rw [byteLen_nil, byteLen_cons] at hlen
      omega
  | cons c a ih => cases b with
    | nil =>
      have hpos := c.utf8Size_pos
      rw [byteLen_nil, byteLen_cons] at hlen
      omega
    | cons c' b =>
      obtain ⟨rfl, hrest⟩ := List.cons.inj h
      rw [byteLen_cons, byteLen_cons, Nat.add_right_inj] at hlen
      obtain ⟨rfl, hxy⟩ := ih hrest hlen
      exact ⟨rfl, hxy⟩

/-- Text up to the next separator and the rest, or the whole and nothing. -/
def splitOnce (sep : Char) : Text → Option (Text × Text)
  | [] => none
  | c :: rest =>
    if c = sep then some ([], rest)
    else (splitOnce sep rest).map fun r => (c :: r.1, r.2)

theorem splitOnce_append {sep : Char} {a : Text} (h : sep ∉ a) (b : Text) :
    splitOnce sep (a ++ sep :: b) = some (a, b) := by
  induction a with
  | nil => rw [List.nil_append, splitOnce, if_pos rfl]
  | cons c a ih =>
    rw [List.mem_cons, not_or] at h
    rw [List.cons_append, splitOnce, if_neg (Ne.symm h.1), ih h.2]
    rfl

theorem splitOnce_eq_some {sep : Char} {s a b : Text} (h : splitOnce sep s = some (a, b)) :
    s = a ++ sep :: b ∧ sep ∉ a := by
  induction s generalizing a with
  | nil => cases h
  | cons c rest ih =>
    rw [splitOnce] at h
    by_cases hc : c = sep
    · rw [if_pos hc, Option.some_inj, Prod.mk.injEq] at h
      obtain ⟨rfl, rfl⟩ := h
      exact ⟨by rw [hc]; rfl, List.not_mem_nil⟩
    · rw [if_neg hc, Option.map_eq_some_iff] at h
      obtain ⟨⟨a', b'⟩, hrest, heq⟩ := h
      obtain ⟨rfl, rfl⟩ := Prod.mk.inj heq
      obtain ⟨rfl, hmem⟩ := ih hrest
      refine ⟨rfl, fun hin => ?_⟩
      rcases List.mem_cons.mp hin with heq' | hin
      · exact hc heq'.symm
      · exact hmem hin

theorem splitOnce_eq_none {sep : Char} {s : Text} : splitOnce sep s = none ↔ sep ∉ s := by
  constructor
  · intro h hmem
    obtain ⟨a, b, rfl, hnot⟩ := List.eq_append_cons_of_mem hmem
    rw [splitOnce_append hnot] at h
    cases h
  · intro h
    induction s with
    | nil => rfl
    | cons c rest ih =>
      rw [List.mem_cons, not_or] at h
      rw [splitOnce, if_neg (Ne.symm h.1), ih h.2]
      rfl

/-- The pieces between separators, at least one. -/
def splitOn (sep : Char) : Text → List Text
  | [] => [[]]
  | c :: rest =>
    if c = sep then [] :: splitOn sep rest
    else match splitOn sep rest with
      | piece :: pieces => (c :: piece) :: pieces
      | [] => [[c]]

def join (sep : Text) : List Text → Text
  | [] => []
  | [s] => s
  | s :: t :: rest => s ++ sep ++ join sep (t :: rest)

theorem splitOn_ne_nil (sep : Char) (s : Text) : splitOn sep s ≠ [] := by
  cases s with
  | nil => exact List.cons_ne_nil _ _
  | cons c rest =>
    rw [splitOn]
    split_ifs
    · exact List.cons_ne_nil _ _
    · split
      · exact List.cons_ne_nil _ _
      · exact List.cons_ne_nil _ _

theorem join_cons_cons (sep : Char) (c : Char) (piece : Text) (pieces : List Text) :
    join [sep] ((c :: piece) :: pieces) = c :: join [sep] (piece :: pieces) := by
  cases pieces with
  | nil => rfl
  | cons next rest => rfl

theorem join_splitOn (sep : Char) (s : Text) : join [sep] (splitOn sep s) = s := by
  induction s with
  | nil => rfl
  | cons c rest ih =>
    rw [splitOn]
    cases hpieces : splitOn sep rest with
    | nil => exact absurd hpieces (splitOn_ne_nil sep rest)
    | cons piece pieces =>
      rw [hpieces] at ih
      by_cases hc : c = sep
      · rw [if_pos hc, join, ih, hc]
        rfl
      · rw [if_neg hc]
        show join [sep] ((c :: piece) :: pieces) = c :: rest
        rw [join_cons_cons, ih]

theorem splitOn_of_not_mem {sep : Char} {s : Text} (h : sep ∉ s) : splitOn sep s = [s] := by
  induction s with
  | nil => rfl
  | cons c rest ih =>
    rw [List.mem_cons, not_or] at h
    rw [splitOn, if_neg (Ne.symm h.1), ih h.2]

theorem splitOn_append {sep : Char} {a : Text} (h : sep ∉ a) (b : Text) :
    splitOn sep (a ++ sep :: b) = a :: splitOn sep b := by
  induction a with
  | nil => rw [List.nil_append, splitOn, if_pos rfl]
  | cons c a ih =>
    rw [List.mem_cons, not_or] at h
    rw [List.cons_append, splitOn, if_neg (Ne.symm h.1), ih h.2]

theorem splitOn_join {sep : Char} {pieces : List Text} (h : ∀ piece ∈ pieces, sep ∉ piece)
    (hne : pieces ≠ []) : splitOn sep (join [sep] pieces) = pieces := by
  induction pieces with
  | nil => exact absurd rfl hne
  | cons piece pieces ih =>
    have hpiece := h piece List.mem_cons_self
    cases pieces with
    | nil => exact splitOn_of_not_mem hpiece
    | cons next pieces =>
      rw [join, List.append_assoc, List.singleton_append, splitOn_append hpiece,
        ih (fun q hq => h q (List.mem_cons_of_mem piece hq)) (List.cons_ne_nil _ _)]

theorem mem_of_mem_splitOn {sep : Char} {s piece : Text} (h : piece ∈ splitOn sep s) :
    ∀ c ∈ piece, c ∈ s ∧ c ≠ sep := by
  induction s generalizing piece with
  | nil =>
    rw [splitOn, List.mem_singleton] at h
    rw [h]
    exact fun c hc => absurd hc List.not_mem_nil
  | cons d rest ih =>
    rw [splitOn] at h
    split_ifs at h with hd
    · rcases List.mem_cons.mp h with rfl | h
      · exact fun c hc => absurd hc List.not_mem_nil
      · exact fun c hc => ⟨List.mem_cons_of_mem d (ih h c hc).1, (ih h c hc).2⟩
    · cases hpieces : splitOn sep rest with
      | nil => exact absurd hpieces (splitOn_ne_nil sep rest)
      | cons first pieces =>
        rw [hpieces] at h ih
        rcases List.mem_cons.mp h with rfl | h
        · intro c hc
          rcases List.mem_cons.mp hc with rfl | hc
          · exact ⟨List.mem_cons_self, hd⟩
          · have hfirst := ih List.mem_cons_self c hc
            exact ⟨List.mem_cons_of_mem d hfirst.1, hfirst.2⟩
        · intro c hc
          have hrest := ih (List.mem_cons_of_mem first h) c hc
          exact ⟨List.mem_cons_of_mem d hrest.1, hrest.2⟩

def splitWhitespaceFrom : Text → Text → List Text
  | word, [] => if word = [] then [] else [word.reverse]
  | word, c :: rest =>
    if isWhitespace c then
      if word = [] then splitWhitespaceFrom [] rest
      else word.reverse :: splitWhitespaceFrom [] rest
    else splitWhitespaceFrom (c :: word) rest

/-- The maximal runs of characters that are not whitespace. -/
def splitWhitespace (s : Text) : List Text := splitWhitespaceFrom [] s

def toAsciiLowercase (s : Text) : Text := s.map Char.toLower

def eqIgnoreAsciiCase (a b : Text) : Bool := toAsciiLowercase a == toAsciiLowercase b

def isAsciiDigit (c : Char) : Bool := c.isDigit

def isAsciiAlphabetic (c : Char) : Bool := c.isAlpha

def isAsciiAlphanumeric (c : Char) : Bool := c.isAlphanum

/-! ## Offsets in bytes and in UTF-16 units -/

/-- A character as UTF-16 units: one, or a surrogate pair. -/
def charUnits (c : Char) : List UInt16 :=
  if c.toNat < 0x10000 then [.ofNat c.toNat]
  else
    let v := c.toNat - 0x10000
    [.ofNat (0xD800 + v / 0x400), .ofNat (0xDC00 + v % 0x400)]

def encodeUtf16 (s : Text) : List UInt16 := s.flatMap charUnits

@[simp] theorem encodeUtf16_append (a b : Text) :
    encodeUtf16 (a ++ b) = encodeUtf16 a ++ encodeUtf16 b := by
  rw [encodeUtf16, List.flatMap_append, encodeUtf16, encodeUtf16]

def unitCount (s : Text) : Nat := (encodeUtf16 s).length

@[simp] theorem unitCount_append (a b : Text) : unitCount (a ++ b) = unitCount a + unitCount b := by
  rw [unitCount, encodeUtf16_append, List.length_append, unitCount, unitCount]

theorem unitCount_of_ascii {s : Text} (h : ∀ c ∈ s, c.toNat < 128) : unitCount s = s.length := by
  induction s with
  | nil => rfl
  | cons c s ih =>
    have hc := h c List.mem_cons_self
    have hrest := ih fun d hd => h d (List.mem_cons_of_mem c hd)
    rw [unitCount] at hrest
    rw [unitCount, encodeUtf16, List.flatMap_cons, List.length_append, charUnits,
      if_pos (by omega), List.length_singleton, List.length_cons]
    show 1 + (encodeUtf16 s).length = s.length + 1
    omega

theorem encodeUtf16_slice (before piece after : Text) :
    ((encodeUtf16 (before ++ piece ++ after)).drop (unitCount before)).take
        (unitCount (before ++ piece) - unitCount before) = encodeUtf16 piece := by
  have hdrop : ((encodeUtf16 before ++ (encodeUtf16 piece ++ encodeUtf16 after)).drop
      (unitCount before)) = encodeUtf16 piece ++ encodeUtf16 after := List.drop_left' rfl
  rw [encodeUtf16_append, encodeUtf16_append, List.append_assoc, unitCount_append,
    Nat.add_sub_cancel_left, hdrop]
  exact List.take_left' rfl

/-! ## Slices -/

theorem takeBytes_byteLen (a b : Text) : takeBytes (byteLen a) (a ++ b) = a := by
  have hnone : takeBytes 0 b = [] := by
    cases b with
    | nil => rfl
    | cons c b =>
      have hpos := c.utf8Size_pos
      rw [takeBytes, if_neg (by omega)]
  rw [takeBytes_append, if_pos (Nat.le_refl _), Nat.sub_self, hnone, List.append_nil]

theorem dropBytes_byteLen (a b : Text) : dropBytes (byteLen a) (a ++ b) = b := by
  rw [dropBytes, takeBytes_byteLen, List.drop_left]

def sliceBytes (start stop : Nat) (s : Text) : Text := takeBytes (stop - start) (dropBytes start s)

theorem sliceBytes_byteLen (before piece after : Text) :
    sliceBytes (byteLen before) (byteLen (before ++ piece)) (before ++ piece ++ after) = piece := by
  rw [sliceBytes, List.append_assoc, dropBytes_byteLen, byteLen_append, Nat.add_sub_cancel_left,
    takeBytes_byteLen]

end Text
end CmTrace
