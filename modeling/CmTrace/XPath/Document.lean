import CmTrace.XPath.Syntax

/-!
# Query lists

A query list is a document of `Query` elements, each with selections and
suppressions.  Its character data is escaped; `lexMarkup_escape` says that
reading undoes the escaping of any text.
-/

namespace CmTrace
namespace XPath

open Text

inductive Tag where
  | queryList
  | query
  | select
  | suppress
  deriving DecidableEq, Repr

inductive Markup where
  | start (tag : Tag)
  | stop (tag : Tag)
  | data (s : Text)
  | bad
  deriving DecidableEq, Repr

def tagNamed (name : Text) : Option Tag :=
  if name = "QueryList".toList then some .queryList
  else if name = "Query".toList then some .query
  else if name = "Select".toList then some .select
  else if name = "Suppress".toList then some .suppress
  else none

/-- What stands between angle brackets; attributes select nothing. -/
def markupNamed (s : Text) : Markup :=
  match s with
  | '/' :: name => ((tagNamed name).map Markup.stop).getD .bad
  | s => ((tagNamed (s.takeWhile fun c => c != ' ')).map Markup.start).getD .bad

def entity (name : Text) : Option Char :=
  if name = "amp".toList then some '&'
  else if name = "lt".toList then some '<'
  else if name = "gt".toList then some '>'
  else if name = "quot".toList then some '"'
  else if name = "apos".toList then some '\''
  else none

inductive MarkupState where
  | data (s : Text)
  | tag (s : Text)
  | entity (s name : Text)
  deriving DecidableEq, Repr

def lexMarkupStep : MarkupState → Char → List Markup × MarkupState
  | .data s, c =>
    if c = '<' then (if s = [] then [] else [.data s], .tag [])
    else if c = '&' then ([], .entity s [])
    else ([], .data (s ++ [c]))
  | .tag s, c => if c = '>' then ([markupNamed s], .data []) else ([], .tag (s ++ [c]))
  | .entity s name, c =>
    if c = ';' then
      match entity name with
      | some c => ([], .data (s ++ [c]))
      | none => ([.bad], .data s)
    else ([], .entity s (name ++ [c]))

def lexMarkup : MarkupState → Text → List Markup
  | .data s, [] => if s = [] then [] else [.data s]
  | _, [] => [.bad]
  | state, c :: rest => (lexMarkupStep state c).1 ++ lexMarkup (lexMarkupStep state c).2 rest

/-- A `Query` element. -/
structure Node where
  selects : List Selection := []
  suppresses : List Selection := []
  deriving DecidableEq, Repr

/-- The `Query` elements up to the end of the list, with the one under way. -/
def readNodes : Option Node → List Markup → Option (List Node)
  | none, [.stop .queryList] => some []
  | none, .start .query :: rest => readNodes (some {}) rest
  | some node, .stop .query :: rest => (readNodes none rest).map fun nodes => node :: nodes
  | some node, .start .select :: .data s :: .stop .select :: rest =>
    (readSelection s).bind fun e => readNodes (some { node with selects := node.selects ++ [e] }) rest
  | some node, .start .suppress :: .data s :: .stop .suppress :: rest =>
    (readSelection s).bind fun e =>
      readNodes (some { node with suppresses := node.suppresses ++ [e] }) rest
  | _, _ => none

/-- A query is one expression or a list of nodes. -/
inductive Query where
  | bare (s : Selection)
  | list (nodes : List Node)
  deriving DecidableEq, Repr

def readQuery (s : Text) : Option Query :=
  if s.head? = some '<' then
    match lexMarkup (.data []) s with
    | .start .queryList :: rest => (readNodes none rest).map .list
    | _ => none
  else (readSelection s).map .bare

def escape : Text → Text
  | [] => []
  | c :: rest =>
    (if c = '&' then "&amp;".toList
     else if c = '<' then "&lt;".toList
     else if c = '>' then "&gt;".toList
     else if c = '"' then "&quot;".toList
     else [c]) ++ escape rest

theorem lexMarkup_escape (s : Text) : ∀ (before rest : Text),
    lexMarkup (.data before) (escape s ++ rest) = lexMarkup (.data (before ++ s)) rest := by
  induction s with
  | nil => intro before rest; rw [escape, List.nil_append, List.append_nil]
  | cons c s ih =>
    intro before rest
    have hstep : ∀ c, before ++ c :: s = (before ++ [c]) ++ s := fun c => by simp
    rw [escape, List.append_assoc, hstep, ← ih]
    split_ifs with hamp hlt hgt hquot
    · subst hamp; rfl
    · subst hlt; rfl
    · subst hgt; rfl
    · subst hquot; rfl
    · rw [List.cons_append, lexMarkup, lexMarkupStep, if_neg hlt, if_neg hamp]
      rfl

/-- Markup that leaves the reader between elements. -/
def Marks (s : Text) (ms : List Markup) : Prop :=
  ∀ rest, lexMarkup (.data []) (s ++ rest) = ms ++ lexMarkup (.data []) rest

theorem Marks.append {a b : Text} {ma mb : List Markup} (ha : Marks a ma) (hb : Marks b mb) :
    Marks (a ++ b) (ma ++ mb) := by
  intro rest
  rw [List.append_assoc, ha, hb, List.append_assoc]

theorem Marks.lex {s : Text} {ms : List Markup} (h : Marks s ms) : lexMarkup (.data []) s = ms := by
  have := h []
  rw [List.append_nil] at this
  rw [this]
  exact List.append_nil ms

theorem lexMarkup_tag {name : Text} (hname : '>' ∉ name) : ∀ (before rest : Text),
    lexMarkup (.tag before) (name ++ '>' :: rest) =
      markupNamed (before ++ name) :: lexMarkup (.data []) rest := by
  induction name with
  | nil =>
    intro before rest
    rw [List.nil_append, List.append_nil, lexMarkup, lexMarkupStep, if_pos rfl]
    rfl
  | cons c name ih =>
    intro before rest
    have hc : c ≠ '>' := fun h => hname (by simp [h])
    rw [List.cons_append, lexMarkup, lexMarkupStep, if_neg hc]
    rw [List.nil_append, ih fun h => hname (List.mem_cons_of_mem _ h)]
    simp

theorem lexMarkup_stop {s : Text} (hs : s ≠ []) (name rest : Text) (hname : '>' ∉ name) :
    lexMarkup (.data s) ('<' :: name ++ '>' :: rest) =
      [.data s, markupNamed name] ++ lexMarkup (.data []) rest := by
  rw [List.cons_append, lexMarkup, lexMarkupStep, if_pos rfl, if_neg hs]
  simp only [List.cons_append, List.nil_append]
  rw [lexMarkup_tag hname]
  rfl

theorem marks_tag {name : Text} (hname : '>' ∉ name) :
    Marks ('<' :: name ++ ['>']) [markupNamed name] := by
  intro rest
  rw [List.cons_append, List.cons_append, lexMarkup, lexMarkupStep, if_pos rfl, if_pos rfl,
    List.nil_append, List.append_assoc, List.singleton_append, lexMarkup_tag hname]
  rfl

theorem marks_element {name : Text} {tag : Tag} {s : Text} (hs : s ≠ []) (hname : '>' ∉ name)
    (ho : markupNamed name = .start tag) (hc : markupNamed ('/' :: name) = .stop tag) :
    Marks (('<' :: name ++ ['>']) ++ escape s ++ ('<' :: '/' :: name ++ ['>']))
      [.start tag, .data s, .stop tag] := by
  intro rest
  have hslash : '>' ∉ '/' :: name := by simpa using hname
  have hend := lexMarkup_stop hs ('/' :: name) rest hslash
  rw [List.append_assoc, List.append_assoc, marks_tag hname, lexMarkup_escape, List.nil_append, ho]
  simp only [List.cons_append, List.nil_append, List.append_assoc] at hend ⊢
  rw [hend, hc]

end XPath
end CmTrace
