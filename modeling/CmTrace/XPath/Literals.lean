import CmTrace.XPath.Document

/-!
# Literals of a query

The literals among the tokens of a text are the values of the expression the text reads
as.  Two texts are alike when their tokens differ in the contents of literals only.
-/

namespace CmTrace
namespace XPath

open Text

def Token.contents : Token → Option Text
  | .literal v => some v
  | _          => none

def literals (ts : List Token) : List Text := ts.filterMap Token.contents

def Token.blank : Token → Token
  | .literal _ => .literal []
  | t          => t

def Value.literals : Value → List Text
  | .number _  => []
  | .literal v => [v]

def Test.literals : Test → List Text
  | .compare _ _ v => v.literals
  | .band _ _      => []

def Expr.literals : Expr → List Text
  | .test t     => t.literals
  | .group e    => e.literals
  | .child _ e  => e.literals
  | .conj a b   => a.literals ++ b.literals
  | .disj a b   => a.literals ++ b.literals

def Selection.literals : Selection → List Text
  | .all     => []
  | .where e => e.literals

/-! ## What is read holds the literals -/

theorem readTest_literals {ts rest : List Token} {t : Test} (h : readTest ts = some (t, rest)) :
    literals ts = t.literals ++ literals rest := by
  unfold readTest at h
  split at h
  · cases h
    rfl
  · split_ifs at h
    obtain ⟨n, -, hn⟩ := Option.map_eq_some_iff.mp h
    cases hn
    rfl
  · split_ifs at h
    obtain ⟨n, -, hn⟩ := Option.map_eq_some_iff.mp h
    cases hn
    rfl
  · obtain ⟨n, -, hn⟩ := Option.map_eq_some_iff.mp h
    cases hn
    rfl
  · cases h

theorem closing_literals {c : Char} {ts rest : List Token} (h : closing c ts = some rest) :
    literals ts = literals rest := by
  unfold closing at h
  split at h
  · split_ifs at h
    cases h
    rfl
  · cases h

theorem bracket_literals {c : Char} {wrap : Expr → Expr} {inside : Option (Expr × List Token)}
    {ts rest : List Token} {e : Expr} (hwrap : ∀ e, (wrap e).literals = e.literals)
    (hinside : ∀ e rest, inside = some (e, rest) → literals ts = e.literals ++ literals rest)
    (h : (inside.bind fun r => (closing c r.2).map fun rest => (wrap r.1, rest)) =
      some (e, rest)) :
    literals ts = e.literals ++ literals rest := by
  obtain ⟨⟨inner, after⟩, hinner, h⟩ := Option.bind_eq_some_iff.mp h
  obtain ⟨last, hlast, h⟩ := Option.map_eq_some_iff.mp h
  cases h
  rw [hinside inner after hinner, closing_literals hlast, hwrap]

theorem joined_literals {word : Token} (hword : word.contents = none)
    {first : Option (Expr × List Token)} {more : List Token → Option (Expr × List Token)}
    {join : Expr → Expr → Expr} {ts rest : List Token} {e : Expr}
    (hjoin : ∀ a b, (join a b).literals = a.literals ++ b.literals)
    (hfirst : ∀ e rest, first = some (e, rest) → literals ts = e.literals ++ literals rest)
    (hmore : ∀ ts e rest, more ts = some (e, rest) → literals ts = e.literals ++ literals rest)
    (h : (first.bind fun r => match r.2 with
      | t :: rest => if t = word then (more rest).map fun r' => (join r.1 r'.1, r'.2) else some r
      | []        => some r) = some (e, rest)) :
    literals ts = e.literals ++ literals rest := by
  obtain ⟨⟨a, after⟩, ha, h⟩ := Option.bind_eq_some_iff.mp h
  cases after with
  | nil =>
    cases h
    exact hfirst _ _ ha
  | cons t after =>
    dsimp only at h
    split_ifs at h with ht
    · obtain ⟨⟨b, last⟩, hb, h⟩ := Option.map_eq_some_iff.mp h
      cases h
      have hskip : literals (t :: after) = literals after := by
        rw [ht, literals, List.filterMap_cons, hword]
        rfl
      rw [hfirst a _ ha, hskip, hmore after b last hb, hjoin, List.append_assoc]
    · cases h
      exact hfirst _ _ ha

theorem readExpr_literals {fuel : Nat} {level : Level} {ts rest : List Token} {e : Expr}
    (h : readExpr fuel level ts = some (e, rest)) :
    literals ts = e.literals ++ literals rest := by
  induction fuel generalizing level ts rest e with
  | zero => cases h
  | succ fuel ih =>
    have hih : ∀ level ts e rest, readExpr fuel level ts = some (e, rest) →
        literals ts = e.literals ++ literals rest := fun _ _ _ _ h => ih h
    cases level with
    | primary =>
      unfold readExpr at h
      split at h
      · cases ‹Nat.succ _ = 0›
      · cases ‹Nat.succ _ = _›
        refine bracket_literals ?_ (fun e rest hinside => ?_) h
        · exact fun _ => rfl
        · exact (hih _ _ _ _ hinside :)
      · cases ‹Nat.succ _ = _›
        refine bracket_literals ?_ (fun e rest hinside => ?_) h
        · exact fun _ => rfl
        · exact (hih _ _ _ _ hinside :)
      · obtain ⟨⟨t, after⟩, ht, h⟩ := Option.map_eq_some_iff.mp h
        cases h
        exact readTest_literals ht
      · cases ‹Level.primary = Level.conj›
      · cases ‹Level.primary = Level.disj›
    | conj =>
      unfold readExpr at h
      exact joined_literals rfl (fun _ _ => rfl) (fun e rest => hih _ _ e rest)
        (fun ts e rest => hih _ ts e rest) h
    | disj =>
      unfold readExpr at h
      exact joined_literals rfl (fun _ _ => rfl) (fun e rest => hih _ _ e rest)
        (fun ts e rest => hih _ ts e rest) h

theorem readSelection_literals {s : Text} {e : Selection} (h : readSelection s = some e) :
    literals (lex s) = e.literals := by
  unfold readSelection at h
  dsimp only at h
  split_ifs at h with hall
  · cases h
    rw [hall]
    rfl
  · split at h
    · rename_i e' hread
      cases h
      exact (readExpr_literals hread).trans (List.append_nil _)
    · cases h

theorem literals_conjList (e : Expr) (es : List Expr) :
    (conjList e es).literals = (e :: es).flatMap Expr.literals := by
  induction es generalizing e with
  | nil => exact (List.append_nil _).symm
  | cons e' es ih =>
    show e.literals ++ (conjList e' es).literals = _
    rw [ih]
    rfl

theorem literals_disjList (e : Expr) (es : List Expr) :
    (disjList e es).literals = (e :: es).flatMap Expr.literals := by
  induction es generalizing e with
  | nil => exact (List.append_nil _).symm
  | cons e' es ih =>
    show e.literals ++ (disjList e' es).literals = _
    rw [ih]
    rfl

/-! ## Texts alike -/

/-- The tokens of the texts are the same but for the contents of literals. -/
def Alike (s s' : Text) : Prop :=
  ∃ ts ts', Lexes s ts ∧ Lexes s' ts' ∧ ts.map Token.blank = ts'.map Token.blank

theorem Lexes.lex {s : Text} {ts : List Token} (h : Lexes s ts) : lex s = ts := by
  have hlex := h [] trivial
  rw [List.append_nil] at hlex
  rw [XPath.lex, hlex]
  exact List.append_nil ts

namespace Alike

variable {s s' t t' : Text}

theorem blank_eq (h : Alike s s') : (lex s).map Token.blank = (lex s').map Token.blank := by
  obtain ⟨ts, ts', hs, hs', heq⟩ := h
  rw [hs.lex, hs'.lex, heq]

theorem of_spells {level : Level} {e : Expr} (h : Spells level s e) : Alike s s := by
  obtain ⟨ts, hs, -⟩ := h
  exact ⟨ts, ts, hs, hs, rfl⟩

theorem of_literals {opening q q' v v' : Text} {ts : List Token} (ho : LexesOpen opening ts)
    (h : LexesOpen q [.literal v]) (h' : LexesOpen q' [.literal v']) :
    Alike (opening ++ q) (opening ++ q') := by
  refine ⟨_, _, (ho.append h).lexes, (ho.append h').lexes, ?_⟩
  rw [List.map_append, List.map_append]
  rfl

theorem joiner {word : Text} {joined : Token} (hj : LexesOpen (' ' :: word ++ [' ']) [joined])
    (h : Alike s s') (ht : Alike t t') :
    Alike (s ++ (' ' :: word ++ [' ']) ++ t) (s' ++ (' ' :: word ++ [' ']) ++ t') := by
  obtain ⟨ts, ts', hs, hs', heq⟩ := h
  obtain ⟨us, us', hu, hu', hequ⟩ := ht
  refine ⟨_, _, lexes_joiner word hj hs hu, lexes_joiner word hj hs' hu', ?_⟩
  rw [List.map_append, List.map_append, List.map_cons, List.map_cons, heq, hequ]

theorem joins {word : Text} {joined : Token} (hj : LexesOpen (' ' :: word ++ [' ']) [joined])
    {ss ss' : List Text} (h : Alike s s') (hs : List.Forall₂ Alike ss ss') :
    Alike (join (' ' :: word ++ [' ']) (s :: ss)) (join (' ' :: word ++ [' ']) (s' :: ss')) := by
  induction hs generalizing s s' with
  | nil => exact h
  | cons h' _ ih => exact joiner hj h (ih h')

theorem child {name : Text} (hne : name ≠ []) (hname : name.all isWordChar = true)
    (h : Alike s s') : Alike (name ++ '[' :: s ++ [']']) (name ++ '[' :: s' ++ [']']) := by
  obtain ⟨ts, ts', hs, hs', heq⟩ := h
  have hopen : LexesOpen (name ++ ['[']) ([.word name] ++ [.sym '[']) :=
    (lexes_word hne hname).append_open (fun _ => rfl) (List.cons_ne_nil _ _)
      ⟨by decide, by decide⟩
  have hwhole : ∀ {s : Text} {ts : List Token}, Lexes s ts →
      Lexes (name ++ '[' :: s ++ [']']) ([.word name] ++ [.sym '['] ++ (ts ++ [.sym ']'])) := by
    intro s ts hs
    have hall := (hopen.append (lexes_close hs (.inr rfl))).lexes
    simpa only [List.append_assoc, List.cons_append, List.nil_append] using hall
  refine ⟨_, _, hwhole hs, hwhole hs', ?_⟩
  simp only [List.map_append, heq]

end Alike

/-! ## Expressions of a query -/

/-- What the selections and suppressions among the markups hold. -/
def bodies : List Markup → List (Tag × Text)
  | .start .select :: .data s :: .stop .select :: rest => (.select, s) :: bodies rest
  | .start .suppress :: .data s :: .stop .suppress :: rest => (.suppress, s) :: bodies rest
  | _ :: rest => bodies rest
  | [] => []

theorem bodies_select (s : Text) (rest : List Markup) :
    bodies ([.start .select, .data s, .stop .select] ++ rest) = (.select, s) :: bodies rest := rfl

theorem bodies_suppress (s : Text) (rest : List Markup) :
    bodies ([.start .suppress, .data s, .stop .suppress] ++ rest) =
      (.suppress, s) :: bodies rest := rfl

/-- The expressions of a query, and what each of them is for. -/
def expressions (q : Text) : List (Tag × Text) :=
  if q.head? = some '<' then bodies (lexMarkup (.data []) q) else [(.select, q)]

end XPath
end CmTrace
