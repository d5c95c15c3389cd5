import CmTrace.Text.Number

/-!
# A subset of XPath and how it is read

The subset is the one event queries use: paths of predicates, comparisons of
elements with numbers and of attributes with literals, two function calls, and
`and` and `or` with parentheses.  There is no negation.

A query is read in two steps, into tokens and into an expression.  The rules
`Lexes` and `Reads…` say how a piece of text reads inside any context, so that
what a printer writes can be read back piece by piece.
-/

namespace CmTrace
namespace XPath

open Text

inductive Relation where
  | eq
  | ne
  | lt
  | le
  | gt
  | ge
  deriving DecidableEq, Repr

inductive Token where
  | word (w : Text)
  | literal (v : Text)
  | sym (c : Char)
  | rel (r : Relation)
  | bad
  deriving DecidableEq, Repr

/-- What the reader of tokens is in the middle of. -/
inductive LexState where
  | idle
  | word (w : Text)
  | literal (quote : Char) (v : Text)
  | rel (c : Char)
  deriving DecidableEq, Repr

def isWordChar (c : Char) : Bool := c.isAlphanum || c == '*'

def isSymbol (c : Char) : Bool := ['(', ')', '[', ']', ',', '@'].contains c

def lexStart (c : Char) : List Token × LexState :=
  if isWordChar c then ([], .word [c])
  else if isSymbol c then ([.sym c], .idle)
  else if c = '\'' ∨ c = '"' then ([], .literal c [])
  else if c = '=' then ([.rel .eq], .idle)
  else if c = '<' ∨ c = '>' ∨ c = '!' then ([], .rel c)
  else if c = ' ' then ([], .idle)
  else ([.bad], .idle)

/-- A relation that was not followed by an equals sign. -/
def strictRelation (c : Char) : Token :=
  if c = '<' then .rel .lt else if c = '>' then .rel .gt else .bad

def laxRelation (c : Char) : Token :=
  if c = '<' then .rel .le else if c = '>' then .rel .ge else .rel .ne

def lexStep : LexState → Char → List Token × LexState
  | .idle, c => lexStart c
  | .word w, c =>
    if isWordChar c then ([], .word (w ++ [c]))
    else (.word w :: (lexStart c).1, (lexStart c).2)
  | .literal quote v, c =>
    if c = quote then ([.literal v], .idle) else ([], .literal quote (v ++ [c]))
  | .rel r, c =>
    if c = '=' then ([laxRelation r], .idle)
    else (strictRelation r :: (lexStart c).1, (lexStart c).2)

def lexFrom : LexState → Text → List Token
  | .idle, [] => []
  | .word w, [] => [.word w]
  | .literal _ _, [] => [.bad]
  | .rel r, [] => [strictRelation r]
  | state, c :: rest => (lexStep state c).1 ++ lexFrom (lexStep state c).2 rest

def lex (s : Text) : List Token := lexFrom .idle s

inductive Operand where
  | element (name : Text)
  | attribute (name : Text)
  /-- Milliseconds between the attribute's instant and now. -/
  | timediff (name : Text)
  deriving DecidableEq, Repr

inductive Value where
  | number (n : Nat)
  | literal (v : Text)
  deriving DecidableEq, Repr

inductive Test where
  | compare (operand : Operand) (r : Relation) (v : Value)
  /-- The element and the mask have a bit in common. -/
  | band (name : Text) (mask : Nat)
  deriving DecidableEq, Repr

inductive Expr where
  | test (t : Test)
  | group (e : Expr)
  | child (name : Text) (body : Expr)
  | conj (a b : Expr)
  | disj (a b : Expr)
  deriving DecidableEq, Repr

def readNumber (w : Text) : Option Nat :=
  if w ≠ [] ∧ w.all Char.isDigit then some (Nat.ofDigitChars 10 w 0) else none

def readTest : List Token → Option (Test × List Token)
  | .sym '@' :: .word a :: .rel r :: .literal v :: rest =>
    some (.compare (.attribute a) r (.literal v), rest)
  | .word f :: .sym '(' :: .sym '@' :: .word a :: .sym ')' :: .rel r :: .word w :: rest =>
    if f = "timediff".toList then
      (readNumber w).map fun n => (.compare (.timediff a) r (.number n), rest)
    else none
  | .word f :: .sym '(' :: .word e :: .sym ',' :: .word w :: .sym ')' :: rest =>
    if f = "band".toList then (readNumber w).map fun n => (.band e n, rest) else none
  | .word e :: .rel r :: .word w :: rest =>
    (readNumber w).map fun n => (.compare (.element e) r (.number n), rest)
  | _ => none

def closing (c : Char) : List Token → Option (List Token)
  | .sym d :: rest => if d = c then some rest else none
  | _ => none

def andWord : Token := .word "and".toList
def orWord : Token := .word "or".toList

/-- Readers of the three levels of precedence. -/
inductive Level where
  | primary
  | conj
  | disj
  deriving DecidableEq, Repr

def readExpr : Nat → Level → List Token → Option (Expr × List Token)
  | 0, _, _ => none
  | fuel + 1, .primary, .sym '(' :: ts =>
    (readExpr fuel .disj ts).bind fun r => (closing ')' r.2).map fun rest => (.group r.1, rest)
  | fuel + 1, .primary, .word name :: .sym '[' :: ts =>
    (readExpr fuel .disj ts).bind fun r =>
      (closing ']' r.2).map fun rest => (.child name r.1, rest)
  | _ + 1, .primary, ts => (readTest ts).map fun r => (.test r.1, r.2)
  | fuel + 1, .conj, ts =>
    (readExpr fuel .primary ts).bind fun r =>
      match r.2 with
      | t :: rest =>
        if t = andWord then (readExpr fuel .conj rest).map fun r' => (.conj r.1 r'.1, r'.2)
        else some r
      | [] => some r
  | fuel + 1, .disj, ts =>
    (readExpr fuel .conj ts).bind fun r =>
      match r.2 with
      | t :: rest =>
        if t = orWord then (readExpr fuel .disj rest).map fun r' => (.disj r.1 r'.1, r'.2)
        else some r
      | [] => some r

/-- A selection: every event, or the ones an expression holds of. -/
inductive Selection where
  | all
  | where (e : Expr)
  deriving DecidableEq, Repr

def readSelection (s : Text) : Option Selection :=
  let ts := lex s
  if ts = [.word ['*']] then some .all
  else match readExpr (3 * ts.length + 2) .disj ts with
    | some (e, []) => some (.where e)
    | _ => none

/-! ## Reading pieces of text -/

/-- What may follow a piece without running into its last token. -/
def Boundary : Text → Prop
  | [] => True
  | c :: _ => isWordChar c = false ∧ c ≠ '='

/-- The text reads as these tokens, whatever follows. -/
def LexesOpen (s : Text) (ts : List Token) : Prop :=
  ∀ rest, lexFrom .idle (s ++ rest) = ts ++ lexFrom .idle rest

/-- The text reads as these tokens at a boundary. -/
def Lexes (s : Text) (ts : List Token) : Prop :=
  ∀ rest, Boundary rest → lexFrom .idle (s ++ rest) = ts ++ lexFrom .idle rest

theorem LexesOpen.lexes {s : Text} {ts : List Token} (h : LexesOpen s ts) : Lexes s ts :=
  fun rest _ => h rest

theorem lexesOpen_nil : LexesOpen [] [] := fun _ => rfl

theorem LexesOpen.append {a b : Text} {ta tb : List Token} (ha : LexesOpen a ta)
    (hb : LexesOpen b tb) : LexesOpen (a ++ b) (ta ++ tb) := by
  intro rest
  rw [List.append_assoc, ha, hb, List.append_assoc]

theorem LexesOpen.append_lexes {a b : Text} {ta tb : List Token} (ha : LexesOpen a ta)
    (hb : Lexes b tb) : Lexes (a ++ b) (ta ++ tb) := by
  intro rest hrest
  rw [List.append_assoc, ha, hb rest hrest, List.append_assoc]

theorem Lexes.append_open {a b : Text} {ta tb : List Token} (ha : Lexes a ta)
    (hb : LexesOpen b tb) (hne : b ≠ []) (hstart : Boundary b) : LexesOpen (a ++ b) (ta ++ tb) := by
  intro rest
  have hboundary : Boundary (b ++ rest) := by
    cases b with
    | nil => exact absurd rfl hne
    | cons c b => exact hstart
  rw [List.append_assoc, ha _ hboundary, hb, List.append_assoc]

theorem lexStep_boundary {w : Text} {c : Char} (hc : isWordChar c = false) :
    lexStep (.word w) c = (.word w :: (lexStart c).1, (lexStart c).2) := by
  rw [lexStep, if_neg (by simp [hc])]

theorem lexFrom_word {w rest : Text} (hrest : Boundary rest) :
    lexFrom (.word w) rest = .word w :: lexFrom .idle rest := by
  cases rest with
  | nil => rfl
  | cons c rest => rw [lexFrom, lexStep_boundary hrest.1]; rfl

theorem lexFrom_wordChars : ∀ {tail w rest : Text}, tail.all isWordChar = true → Boundary rest →
     lexFrom (.word w) (tail ++ rest) = .word (w ++ tail) :: lexFrom .idle rest := by
  intro tail
  induction tail with
  | nil =>
    intro w rest _ hrest
    rw [List.nil_append, List.append_nil, lexFrom_word hrest]
  | cons c tail ih =>
    intro w rest hw hrest
    obtain ⟨hc, htail⟩ := Bool.and_eq_true_iff.mp hw
    rw [List.cons_append, lexFrom, lexStep, if_pos hc]
    rw [List.nil_append, ih htail hrest]
    simp

theorem lexes_word {w : Text} (hne : w ≠ []) (hw : w.all isWordChar = true) :
    Lexes w [.word w] := by
  intro rest hrest
  cases w with
  | nil => exact absurd rfl hne
  | cons c w =>
    obtain ⟨hc, htail⟩ := Bool.and_eq_true_iff.mp hw
    have hstart : lexStep .idle c = ([], .word [c]) := by
      rw [lexStep, lexStart, if_pos hc]
    rw [List.cons_append, lexFrom, hstart]
    exact lexFrom_wordChars htail hrest

theorem lexes_decimal (n : Nat) : Lexes (decimal n) [.word (decimal n)] := by
  refine lexes_word Nat.toDigits_ne_nil (List.all_eq_true.mpr fun c hc => ?_)
  have hd : c.isDigit = true := Nat.isDigit_of_mem_toDigits (by omega) (by omega) hc
  simp [isWordChar, Char.isAlphanum, hd]

theorem readNumber_decimal (n : Nat) : readNumber (decimal n) = some n := by
  have hall : (decimal n).all Char.isDigit = true := by
    rw [List.all_eq_true]
    exact fun c hc => Nat.isDigit_of_mem_toDigits (by omega) (by omega) hc
  rw [readNumber, if_pos ⟨Nat.toDigits_ne_nil, hall⟩, decimal, Nat.ofDigitChars_ten_toDigits]

theorem lexFrom_literal {q : Char} : ∀ {tail v rest : Text}, q ∉ tail →
    lexFrom (.literal q v) (tail ++ q :: rest) = .literal (v ++ tail) :: lexFrom .idle rest := by
  intro tail
  induction tail with
  | nil =>
    intro v rest _
    rw [List.nil_append, List.append_nil, lexFrom, lexStep, if_pos rfl]
    rfl
  | cons c tail ih =>
    intro v rest hq
    have hc : c ≠ q := fun h => hq (by simp [h])
    rw [List.cons_append, lexFrom, lexStep, if_neg hc]
    rw [List.nil_append, ih fun h => hq (List.mem_cons_of_mem _ h)]
    simp

theorem lexesOpen_literal {q : Char} (hq : q = '\'' ∨ q = '"') {v : Text} (hv : q ∉ v) :
    LexesOpen (q :: v ++ [q]) [.literal v] := by
  intro rest
  have hstart : lexStep .idle q = ([], .literal q []) := by
    rcases hq with rfl | rfl <;> rfl
  rw [List.cons_append, List.cons_append, lexFrom, hstart, List.append_assoc]
  exact lexFrom_literal hv

/-! ## Reading tokens -/

/-- What may follow an expression of a level without being taken into it. -/
def Level.Ends : Level → List Token → Prop
  | .primary, _ => True
  | .conj, rest => rest.head? ≠ some andWord
  | .disj, rest => rest.head? ≠ some andWord ∧ rest.head? ≠ some orWord

def Level.slack : Level → Nat
  | .primary => 0
  | .conj => 1
  | .disj => 2

/-- The tokens read as this expression wherever the level can end. -/
def Reads (level : Level) (ts : List Token) (e : Expr) : Prop :=
  ∀ rest n, level.Ends rest → 3 * ts.length + level.slack ≤ n →
    readExpr n level (ts ++ rest) = some (e, rest)

theorem reads_group {ts : List Token} {e : Expr} (h : Reads .disj ts e) :
    Reads .primary (.sym '(' :: ts ++ [.sym ')']) (.group e) := by
  intro rest n _ hn
  have hends : Level.Ends .disj ([.sym ')'] ++ rest) := by constructor <;> simp [andWord, orWord]
  simp only [List.length_append, List.length_cons, List.length_nil, Level.slack] at hn
  cases n with
  | zero => omega
  | succ n =>
    rw [List.cons_append, List.cons_append, List.append_assoc, readExpr,
      h _ n hends (by simp only [Level.slack]; omega)]
    rfl

theorem reads_child (name : Text) {ts : List Token} {e : Expr} (h : Reads .disj ts e) :
    Reads .primary (.word name :: .sym '[' :: ts ++ [.sym ']']) (.child name e) := by
  intro rest n _ hn
  have hends : Level.Ends .disj ([.sym ']'] ++ rest) := by constructor <;> simp [andWord, orWord]
  simp only [List.length_append, List.length_cons, List.length_nil, Level.slack] at hn
  cases n with
  | zero => omega
  | succ n =>
    rw [List.cons_append, List.cons_append, List.cons_append, List.cons_append, List.append_assoc,
      readExpr, h _ n hends (by simp only [Level.slack]; omega)]
    rfl

theorem reads_conj_one {ts : List Token} {e : Expr} (h : Reads .primary ts e) :
    Reads .conj ts e := by
  intro rest n hends hn
  cases n with
  | zero => simp only [Level.slack] at hn; omega
  | succ n =>
    rw [readExpr, h rest n trivial (by simp only [Level.slack] at hn ⊢; omega)]
    cases rest with
    | nil => rfl
    | cons t rest =>
      have ht : t ≠ andWord := fun h => hends (by rw [h]; rfl)
      simp [ht]

theorem reads_conj_cons {ts ts' : List Token} {e e' : Expr} (h : Reads .primary ts e)
    (h' : Reads .conj ts' e') : Reads .conj (ts ++ andWord :: ts') (.conj e e') := by
  intro rest n hends hn
  simp only [List.length_append, List.length_cons, Level.slack] at hn
  cases n with
  | zero => omega
  | succ n =>
    rw [readExpr, List.append_assoc, h _ n trivial (by simp only [Level.slack]; omega)]
    simp [h' rest n hends (by simp only [Level.slack]; omega)]

theorem reads_disj_one {ts : List Token} {e : Expr} (h : Reads .conj ts e) : Reads .disj ts e := by
  intro rest n hends hn
  cases n with
  | zero => simp only [Level.slack] at hn; omega
  | succ n =>
    rw [readExpr, h rest n hends.1 (by simp only [Level.slack] at hn ⊢; omega)]
    cases rest with
    | nil => rfl
    | cons t rest =>
      have ht : t ≠ orWord := fun h => hends.2 (by rw [h]; rfl)
      simp [ht]

theorem reads_disj_cons {ts ts' : List Token} {e e' : Expr} (h : Reads .conj ts e)
    (h' : Reads .disj ts' e') : Reads .disj (ts ++ orWord :: ts') (.disj e e') := by
  intro rest n hends hn
  simp only [List.length_append, List.length_cons, Level.slack] at hn
  cases n with
  | zero => omega
  | succ n =>
    have hor : Level.Ends .conj (orWord :: ts' ++ rest) := by simp [Level.Ends, andWord, orWord]
    rw [readExpr, List.append_assoc, h _ n hor (by simp only [Level.slack]; omega)]
    simp [h' rest n hends (by simp only [Level.slack]; omega)]

/-! ## Spelling -/

/-- `e` and then the rest, all joined by `and`. -/
def conjList : Expr → List Expr → Expr
  | e, [] => e
  | e, e' :: es => .conj e (conjList e' es)

def disjList : Expr → List Expr → Expr
  | e, [] => e
  | e, e' :: es => .disj e (disjList e' es)

/-- The text reads as the expression, at a boundary and where the level can end. -/
def Spells (level : Level) (s : Text) (e : Expr) : Prop :=
  ∃ ts, Lexes s ts ∧ Reads level ts e

theorem spells_conj {s : Text} {e : Expr} (h : Spells .primary s e) : Spells .conj s e := by
  obtain ⟨ts, hl, hr⟩ := h
  exact ⟨ts, hl, reads_conj_one hr⟩

theorem spells_disj {s : Text} {e : Expr} (h : Spells .conj s e) : Spells .disj s e := by
  obtain ⟨ts, hl, hr⟩ := h
  exact ⟨ts, hl, reads_disj_one hr⟩

theorem lexes_close {s : Text} {ts : List Token} (h : Lexes s ts) {c : Char}
    (hc : c = ')' ∨ c = ']') : LexesOpen (s ++ [c]) (ts ++ [.sym c]) := by
  have hopen : LexesOpen [c] [.sym c] := by
    intro rest
    rcases hc with rfl | rfl <;> rfl
  refine h.append_open hopen (by simp) ?_
  rcases hc with rfl | rfl <;> exact ⟨by decide, by decide⟩

theorem spells_group {s : Text} {e : Expr} (h : Spells .disj s e) :
    Spells .primary ('(' :: s ++ [')']) (.group e) := by
  obtain ⟨ts, hl, hr⟩ := h
  have hopen : LexesOpen ['('] [.sym '('] := fun _ => rfl
  exact ⟨_, (hopen.append (lexes_close hl (.inl rfl))).lexes, reads_group hr⟩

theorem spells_child {name : Text} (hne : name ≠ []) (hname : name.all isWordChar = true)
    {s : Text} {e : Expr} (h : Spells .disj s e) :
    Spells .primary (name ++ '[' :: s ++ [']']) (.child name e) := by
  obtain ⟨ts, hl, hr⟩ := h
  have hopen : LexesOpen (name ++ ['[']) ([.word name] ++ [.sym '[']) :=
    (lexes_word hne hname).append_open (fun _ => rfl) (by simp) ⟨by decide, by decide⟩
  refine ⟨_, ?_, reads_child name hr⟩
  have hall := (hopen.append (lexes_close hl (.inr rfl))).lexes
  simpa using hall

theorem lexes_joiner (word : Text) {t : Token} (hj : LexesOpen (' ' :: word ++ [' ']) [t])
    {a b : Text} {ta tb : List Token} (ha : Lexes a ta) (hb : Lexes b tb) :
    Lexes (a ++ (' ' :: word ++ [' ']) ++ b) (ta ++ t :: tb) := by
  have hopen := ha.append_open hj (by simp) ⟨by decide, by decide⟩
  simpa using hopen.append_lexes hb

theorem spells_join_and {s : Text} {e : Expr} (h : Spells .primary s e) {ss : List Text}
    {es : List Expr} (hs : List.Forall₂ (Spells .primary) ss es) :
    Spells .conj (join " and ".toList (s :: ss)) (conjList e es) := by
  obtain ⟨ts, hl, hr⟩ := h
  induction hs generalizing s e ts with
  | nil => exact ⟨ts, hl, reads_conj_one hr⟩
  | cons h' _ ih =>
    obtain ⟨ts', hl', hr'⟩ := h'
    obtain ⟨ts'', hl'', hr''⟩ := ih ts' hl' hr'
    exact ⟨_, lexes_joiner "and".toList (fun _ => rfl) hl hl'', reads_conj_cons hr hr''⟩

theorem spells_join_or {s : Text} {e : Expr} (h : Spells .primary s e) {ss : List Text}
    {es : List Expr} (hs : List.Forall₂ (Spells .primary) ss es) :
    Spells .disj (join " or ".toList (s :: ss)) (disjList e es) := by
  obtain ⟨ts, hl, hr⟩ := h
  induction hs generalizing s e ts with
  | nil => exact ⟨ts, hl, reads_disj_one (reads_conj_one hr)⟩
  | cons h' _ ih =>
    obtain ⟨ts', hl', hr'⟩ := h'
    obtain ⟨ts'', hl'', hr''⟩ := ih ts' hl' hr'
    exact ⟨_, lexes_joiner "or".toList (fun _ => rfl) hl hl'',
      reads_disj_cons (reads_conj_one hr) hr''⟩

theorem reads_test {ts : List Token} {t : Test}
    (h : ∀ rest n, readExpr (n + 1) .primary (ts ++ rest) = some (.test t, rest)) (hne : ts ≠ []) :
    Reads .primary ts (.test t) := by
  intro rest n _ hn
  have hpos := List.length_pos_iff.mpr hne
  cases n with
  | zero => omega
  | succ n => exact h rest n

theorem spells_number {opening name : Text} {r : Relation}
    (h : LexesOpen opening [.word name, .rel r]) (n : Nat) :
    Spells .primary (opening ++ decimal n) (.test (.compare (.element name) r (.number n))) := by
  refine ⟨_, h.append_lexes (lexes_decimal n), reads_test (fun rest k => ?_) (by simp)⟩
  simp [readExpr, readTest, readNumber_decimal]

theorem spells_literal {opening name s v : Text} {r : Relation}
    (h : LexesOpen opening [.sym '@', .word name, .rel r]) (hs : LexesOpen s [.literal v]) :
    Spells .primary (opening ++ s) (.test (.compare (.attribute name) r (.literal v))) := by
  refine ⟨_, (h.append hs).lexes, reads_test (fun rest k => ?_) (by simp)⟩
  simp [readExpr, readTest]

theorem spells_timediff {opening name : Text} {r : Relation}
    (h : LexesOpen opening [.word "timediff".toList, .sym '(', .sym '@', .word name, .sym ')', .rel r])
    (n : Nat) :
    Spells .primary (opening ++ decimal n) (.test (.compare (.timediff name) r (.number n))) := by
  refine ⟨_, h.append_lexes (lexes_decimal n), reads_test (fun rest k => ?_) (by simp)⟩
  simp [readExpr, readTest, readNumber_decimal]

theorem spells_band {opening name : Text}
    (h : LexesOpen opening [.word "band".toList, .sym '(', .word name, .sym ',']) (n : Nat) :
    Spells .primary (opening ++ decimal n ++ [')']) (.test (.band name n)) := by
  refine ⟨_, ((lexes_close (h.append_lexes (lexes_decimal n)) (.inl rfl))).lexes,
    reads_test (fun rest k => ?_) (by simp)⟩
  simp [readExpr, readTest, readNumber_decimal]

theorem readSelection_spells {s : Text} {e : Expr} (h : Spells .disj s e) :
    readSelection s = some (.where e) := by
  obtain ⟨ts, hl, hr⟩ := h
  have hlex : lex s = ts := by
    have := hl [] trivial
    rw [List.append_nil] at this
    rw [lex, this]
    exact List.append_nil ts
  have hread := hr [] (3 * ts.length + 2) ⟨by simp, by simp⟩ (Nat.le_refl _)
  rw [List.append_nil] at hread
  rw [readSelection, hlex, hread]
  -- an expression never spells the bare star
  have hstar : ts ≠ [.word ['*']] := by
    intro hts
    have hnone : readExpr 5 .disj [.word ['*']] = none := by decide
    rw [hts] at hread
    exact absurd (hnone.symm.trans hread) (by simp)
  simp [hstar]

end XPath
end CmTrace
