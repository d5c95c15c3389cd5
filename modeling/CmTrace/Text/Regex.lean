import CmTrace.Text.Basic

/-!
# Regular expressions with groups

A backtracking matcher: the ways an expression matches a prefix are listed in
order of preference, and the first one is the match.  A repetition takes at
least one character each round, so the length of the text bounds its rounds.
-/

namespace CmTrace

open Text

inductive Regex where
  | empty
  | char (p : Char → Bool)
  | seq (a b : Regex)
  | alt (a b : Regex)
  | star (greedy : Bool) (a : Regex)
  | group (n : Nat) (a : Regex)
  /-- The beginning of the text. -/
  | begin
  /-- The end of the text. -/
  | stop

namespace Regex

/-- What was taken, what is left, and the groups, the latest first. -/
structure Match where
  taken : Text
  rest : Text
  groups : List (Nat × Text) := []
  deriving DecidableEq, Repr

namespace Match

def before (m n : Match) : Match :=
  { taken  := m.taken ++ n.taken
    rest   := n.rest
    groups := n.groups ++ m.groups }

def group (m : Match) (n : Nat) : Option Text := m.groups.lookup n

end Match

/-- Up to `fuel` rounds of `step`, more rounds first when `greedy`. -/
def rounds (greedy : Bool) (step : Bool → Text → List Match) : Nat → Bool → Text → List Match
  | 0, _, s => [{ taken := [], rest := s }]
  | fuel + 1, atBegin, s =>
    let more := (step atBegin s).flatMap fun m =>
      if m.taken = [] then [] else (rounds greedy step fuel false m.rest).map m.before
    let done : Match := { taken := [], rest := s }
    if greedy then more ++ [done] else done :: more

/-- The ways to match a prefix, in order of preference. -/
def prefixes : Regex → Bool → Text → List Match
  | .empty, _, s => [{ taken := [], rest := s }]
  | .char _, _, [] => []
  | .char p, _, c :: s => if p c then [{ taken := [c], rest := s }] else []
  | .seq a b, atBegin, s =>
    (a.prefixes atBegin s).flatMap fun m =>
      (b.prefixes (atBegin && m.taken.isEmpty) m.rest).map m.before
  | .alt a b, atBegin, s => a.prefixes atBegin s ++ b.prefixes atBegin s
  | .star greedy a, atBegin, s => rounds greedy a.prefixes s.length atBegin s
  | .group n a, atBegin, s =>
    (a.prefixes atBegin s).map fun m => { m with groups := (n, m.taken) :: m.groups }
  | .begin, atBegin, s => if atBegin then [{ taken := [], rest := s }] else []
  | .stop, _, s => if s = [] then [{ taken := [], rest := s }] else []

def findFrom (r : Regex) : Bool → Text → Option Match
  | atBegin, s =>
    match (r.prefixes atBegin s).head? with
    | some m => some m
    | none =>
      match s with
      | [] => none
      | _ :: rest => r.findFrom false rest

def captures (r : Regex) (s : Text) : Option Match := r.findFrom true s

def isMatch (r : Regex) (s : Text) : Bool := (r.captures s).isSome

/-- Successive matches, for expressions that take at least one character. -/
def matchesFrom (r : Regex) : Nat → Bool → Text → List Match
  | 0, _, _ => []
  | fuel + 1, atBegin, s =>
    match r.findFrom atBegin s with
    | some m => m :: r.matchesFrom fuel false m.rest
    | none => []

def capturesIter (r : Regex) (s : Text) : List Match := r.matchesFrom s.length true s

/-! ## Abbreviations -/

def chain (rs : List Regex) : Regex := rs.foldr seq .empty

def oneOf (rs : List Regex) : Regex :=
  match rs with
  | [] => .char fun _ => false
  | r :: rs => rs.foldl alt r

def word (w : Text) : Regex := chain (w.map fun c => .char fun d => d == c)

def many (r : Regex) : Regex := .star true r

def plus (r : Regex) : Regex := .seq r (.star true r)

def lazyPlus (r : Regex) : Regex := .seq r (.star false r)

def times (n : Nat) (r : Regex) : Regex := chain (List.replicate n r)

def upTo (r : Regex) : Nat → Regex
  | 0 => .empty
  | n + 1 => .alt (.seq r (upTo r n)) .empty

def between (low high : Nat) (r : Regex) : Regex := .seq (times low r) (upTo r (high - low))

def dot : Regex := .char fun c => c != '\n'

def anyChar : Regex := .char fun _ => true

def anyBut (c : Char) : Regex := .char fun d => d != c

def asciiDigit : Regex := .char isAsciiDigit

def opt (r : Regex) : Regex := .alt r .empty

def lazyMany (r : Regex) : Regex := .star false r

def space : Regex := .char isWhitespace

def nonSpace : Regex := .char fun c => !isWhitespace c

def hexDigit : Regex := .char fun c => c.isDigit || decide ('a' ≤ c ∧ c ≤ 'f' ∨ 'A' ≤ c ∧ c ≤ 'F')

end Regex
end CmTrace
