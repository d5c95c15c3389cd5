import CmTrace.Text.Number

/-!
# Writing JSON

Values are written without blanks between them.  How many bytes an object or an
array takes is the bytes of its parts, with four for the quotes, the colon and the
comma of a member and one for the comma of a row.
-/

namespace CmTrace
namespace Text

def isControl (c : Char) : Bool := c.toNat < 0x20 || (0x7f ≤ c.toNat && c.toNat < 0xa0)

/-- The letters that stand for characters after a backslash. -/
def jsonEscapes : List (Char × Char) :=
  [('"', '"'), ('\\', '\\'), ('\x08', 'b'), ('\t', 't'), ('\n', 'n'), ('\x0c', 'f'), ('\r', 'r')]

def jsonEscape (c : Char) : Text :=
  match jsonEscapes.lookup c with
  | some letter => ['\\', letter]
  | none =>
    if c.toNat < 0x20 then
      ['\\', 'u', '0', '0', Nat.digitChar (c.toNat / 16), Nat.digitChar (c.toNat % 16)]
    else [c]

def jsonString (s : Text) : Text := '"' :: (s.flatMap jsonEscape ++ ['"'])

def jsonInt : Int → Text
  | .ofNat n => decimal n
  | .negSucc n => '-' :: decimal (n + 1)

def jsonNull : Text := ['n', 'u', 'l', 'l']

def jsonOption {A : Type} (write : A → Text) : Option A → Text
  | none => jsonNull
  | some a => write a

def jsonArray (rows : List Text) : Text := '[' :: (join [','] rows ++ [']'])

def jsonMember (member : String × Text) : Text :=
  '"' :: (member.1.toList ++ '"' :: ':' :: member.2)

def jsonObject (members : List (String × Text)) : Text :=
  '{' :: (join [','] (members.map jsonMember) ++ ['}'])

/-! ## Digits -/

def digits (n : Nat) : Nat := (decimal n).length

theorem digits_pos (n : Nat) : 0 < digits n := Nat.length_toDigits_pos

theorem digits_le_iff {n k : Nat} (h : 0 < k) : digits n ≤ k ↔ n < 10 ^ k :=
  Nat.length_toDigits_le_iff (by decide) h

theorem digits_mono {m n : Nat} (h : m ≤ n) : digits m ≤ digits n := by
  rw [digits_le_iff (digits_pos n)]
  exact Nat.lt_of_le_of_lt h ((digits_le_iff (digits_pos n)).mp (Nat.le_refl _))

theorem byteLen_eq_length {s : Text} (h : ∀ c ∈ s, c.utf8Size = 1) : byteLen s = s.length := by
  induction s with
  | nil => rfl
  | cons c s ih =>
    rw [byteLen_cons, h c List.mem_cons_self, ih fun d hd => h d (List.mem_cons_of_mem c hd),
      List.length_cons, Nat.add_comm]

theorem utf8Size_of_lt {c : Char} (h : c.toNat < 128) : c.utf8Size = 1 := by
  have hval : c.val ≤ 0x7f := by
    rw [UInt32.le_iff_toNat_le]
    exact Nat.le_of_lt_succ h
  exact Char.utf8Size_eq_one_iff.mpr hval

@[simp] theorem byteLen_decimal (n : Nat) : byteLen (decimal n) = digits n := by
  refine byteLen_eq_length fun c hc => utf8Size_of_lt ?_
  have hdigit : c.isDigit = true := Nat.isDigit_of_mem_toDigits (by omega) (by omega) hc
  have hnine : ('9' : Char).toNat = 57 := rfl
  have := Char.isDigit_iff_toNat.mp hdigit
  omega

/-! ## Bytes -/

theorem byteLen_join {rows : List Text} (h : rows ≠ []) :
    byteLen (join [','] rows) + 1 = (rows.map fun row => byteLen row + 1).sum := by
  have hcomma : (',' : Char).utf8Size = 1 := rfl
  induction rows with
  | nil => exact absurd rfl h
  | cons row rows ih =>
    cases rows with
    | nil => simp [join]
    | cons next rest =>
      rw [join, byteLen_append, byteLen_append, byteLen_cons, byteLen_nil, hcomma, List.map_cons,
        List.sum_cons, ← ih (List.cons_ne_nil _ _)]
      omega

theorem byteLen_jsonArray (rows : List Text) :
    byteLen (jsonArray rows) = 2 + ((rows.map fun row => byteLen row + 1).sum - 1) := by
  have hopen : ('[' : Char).utf8Size = 1 := rfl
  have hclose : (']' : Char).utf8Size = 1 := rfl
  rw [jsonArray, byteLen_cons, byteLen_append, byteLen_cons, byteLen_nil, hopen, hclose]
  cases rows with
  | nil => rfl
  | cons row rows =>
    have hjoin := byteLen_join (List.cons_ne_nil row rows)
    omega

theorem byteLen_jsonMember (member : String × Text) :
    byteLen (jsonMember member) = byteLen member.1.toList + 3 + byteLen member.2 := by
  have hquote : ('"' : Char).utf8Size = 1 := rfl
  have hcolon : (':' : Char).utf8Size = 1 := rfl
  rw [jsonMember, byteLen_cons, byteLen_append, byteLen_cons, byteLen_cons, hquote, hcolon]
  omega

theorem byteLen_jsonObject {members : List (String × Text)} (h : members ≠ []) :
    byteLen (jsonObject members) =
      1 + (members.map fun member => byteLen member.1.toList + 4 + byteLen member.2).sum := by
  have hopen : ('{' : Char).utf8Size = 1 := rfl
  have hclose : ('}' : Char).utf8Size = 1 := rfl
  have hjoin := @byteLen_join (members.map jsonMember) (by simpa using h)
  have hrows : (members.map jsonMember).map (fun row => byteLen row + 1) =
      members.map fun member => byteLen member.1.toList + 4 + byteLen member.2 := by
    rw [List.map_map]
    refine List.map_congr_left fun member _ => ?_
    simp only [Function.comp, byteLen_jsonMember]
    omega
  rw [hrows] at hjoin
  rw [jsonObject, byteLen_cons, byteLen_append, byteLen_cons, byteLen_nil, hopen, hclose]
  omega

theorem byteLen_jsonObject_of_names {members : List (String × Text)} (h : members ≠ [])
    {names : List String} {n : Nat} (hnames : members.map Prod.fst = names)
    (hbytes : (names.map fun name => byteLen name.toList).sum = n) :
    byteLen (jsonObject members) =
      1 + n + (members.map fun member => 4 + byteLen member.2).sum := by
  have hsplit : (members.map fun member => byteLen member.1.toList + 4 + byteLen member.2).sum =
      (members.map fun member => byteLen member.1.toList).sum +
        (members.map fun member => 4 + byteLen member.2).sum := by
    simp only [Nat.add_assoc, List.sum_map_add]
  rw [byteLen_jsonObject h, hsplit, ← hbytes, ← hnames, List.map_map, Nat.add_assoc]
  rfl

theorem byteLen_jsonString_le {s : Text} (h : ∀ c ∈ s, 0x20 ≤ c.toNat) :
    byteLen (jsonString s) ≤ 2 + 2 * byteLen s := by
  have hquote : ('"' : Char).utf8Size = 1 := rfl
  have hescape : ∀ c : Char, 0x20 ≤ c.toNat → byteLen (jsonEscape c) ≤ 2 * c.utf8Size := by
    intro c hc
    have hpos : 0 < c.utf8Size := Char.utf8Size_pos c
    rw [jsonEscape]
    split
    next letter hletter =>
      obtain ⟨before, after, hescapes, -⟩ := List.lookup_eq_some_iff.mp hletter
      have hmem : (c, letter) ∈ jsonEscapes := hescapes ▸ by simp
      have hsize : ∀ e ∈ jsonEscapes, byteLen ['\\', e.2] = 2 := by decide
      have := hsize _ hmem
      simp only at this
      omega
    next =>
      rw [if_neg (by omega)]
      simp only [byteLen_cons, byteLen_nil]
      omega
  have hbody : byteLen (s.flatMap jsonEscape) ≤ 2 * byteLen s := by
    induction s with
    | nil => exact Nat.le_refl 0
    | cons c s ih =>
      rw [List.flatMap_cons, byteLen_append, byteLen_cons]
      have hfirst := hescape c (h c List.mem_cons_self)
      have hrest := ih fun d hd => h d (List.mem_cons_of_mem c hd)
      omega
  rw [jsonString, byteLen_cons, byteLen_append, byteLen_cons, byteLen_nil, hquote]
  omega

end Text
end CmTrace
