import CmTrace.XPath.Document

/-!
# What a query selects

The service evaluates an expression at a place of the event's tree.  A path to a
place the tree does not have selects nothing.  The nodes of a list are united,
and what a node's suppressions match is taken from its selection.
-/

namespace CmTrace
namespace XPath

open Text

structure Event where
  level : Nat
  eventId : Nat
  provider : Text
  /-- Milliseconds since the epoch. -/
  created : Int
  keywords : Nat
  deriving DecidableEq, Repr

/-- What the evaluation takes from the machine it runs on: the clock and how an
instant is written. -/
structure Service where
  now : Int
  instant : Text → Int

inductive Place where
  | root
  | event
  | system
  | timeCreated
  | provider
  deriving DecidableEq, Repr

def Place.child (p : Place) (name : Text) : Option Place :=
  match p with
  | .root => if name = "*".toList then some .event else none
  | .event => if name = "System".toList then some .system else none
  | .system =>
    if name = "TimeCreated".toList then some .timeCreated
    else if name = "Provider".toList then some .provider
    else none
  | .timeCreated | .provider => none

def Relation.holds (r : Relation) (a b : Int) : Bool :=
  match r with
  | .eq => a == b
  | .ne => a != b
  | .lt => decide (a < b)
  | .le => decide (a ≤ b)
  | .gt => decide (b < a)
  | .ge => decide (b ≤ a)

def Event.number (ev : Event) (p : Place) (name : Text) : Option Nat :=
  match p with
  | .system =>
    if name = "Level".toList then some ev.level
    else if name = "EventID".toList then some ev.eventId
    else none
  | _ => none

/-- Names compare without regard to ASCII case, instants as instants. -/
def attributeHolds (svc : Service) (ev : Event) (p : Place) (name : Text) (r : Relation)
    (v : Text) : Bool :=
  match p with
  | .provider =>
    name == "Name".toList &&
      match r with
      | .eq => eqIgnoreAsciiCase ev.provider v
      | .ne => !eqIgnoreAsciiCase ev.provider v
      | _ => false
  | .timeCreated => name == "SystemTime".toList && r.holds ev.created (svc.instant v)
  | _ => false

def Test.holds (svc : Service) (ev : Event) (p : Place) : Test → Bool
  | .compare (.element name) r (.number n) => (ev.number p name).any fun m => r.holds m n
  | .compare (.attribute name) r (.literal v) => attributeHolds svc ev p name r v
  | .compare (.timediff name) r (.number n) =>
    p == .timeCreated && name == "SystemTime".toList && r.holds (svc.now - ev.created) n
  | .compare _ _ _ => false
  | .band name mask => p == .system && name == "Keywords".toList && ev.keywords &&& mask != 0

def Expr.holds (svc : Service) (ev : Event) : Place → Expr → Bool
  | p, .test t => t.holds svc ev p
  | p, .group e => e.holds svc ev p
  | p, .child name e =>
    match p.child name with
    | some q => e.holds svc ev q
    | none => false
  | p, .conj a b => a.holds svc ev p && b.holds svc ev p
  | p, .disj a b => a.holds svc ev p || b.holds svc ev p

def Selection.selects (svc : Service) (ev : Event) : Selection → Bool
  | .all => true
  | .where e => e.holds svc ev .root

def Node.selected (svc : Service) (ev : Event) (node : Node) : Bool :=
  node.selects.any (Selection.selects svc ev) && !node.suppresses.any (Selection.selects svc ev)

def Query.selects (svc : Service) (ev : Event) : Query → Bool
  | .bare s => s.selects svc ev
  | .list nodes => nodes.any (Node.selected svc ev)

/-- Comparisons in an expression, each function call being one. -/
def Expr.comparisons : Expr → Nat
  | .test _ => 1
  | .group e => e.comparisons
  | .child _ e => e.comparisons
  | .conj a b => a.comparisons + b.comparisons
  | .disj a b => a.comparisons + b.comparisons

def Selection.comparisons : Selection → Nat
  | .all => 0
  | .where e => e.comparisons

/-- Every expression of a query, selections and suppressions alike. -/
def Query.expressions : Query → List Selection
  | .bare s => [s]
  | .list nodes => nodes.flatMap fun node => node.selects ++ node.suppresses

section
variable (svc : Service) (ev : Event)

theorem holds_conjList (p : Place) : ∀ (e : Expr) (es : List Expr),
    (conjList e es).holds svc ev p = (e :: es).all (Expr.holds svc ev p)
  | e, [] => by simp [conjList]
  | e, e' :: es => by rw [conjList, Expr.holds, holds_conjList p e' es]; rfl

theorem holds_disjList (p : Place) : ∀ (e : Expr) (es : List Expr),
    (disjList e es).holds svc ev p = (e :: es).any (Expr.holds svc ev p)
  | e, [] => by simp [disjList]
  | e, e' :: es => by rw [disjList, Expr.holds, holds_disjList p e' es]; rfl

end

theorem comparisons_conjList : ∀ (e : Expr) (es : List Expr),
    (conjList e es).comparisons = ((e :: es).map Expr.comparisons).sum
  | e, [] => by simp [conjList]
  | e, e' :: es => by rw [conjList, Expr.comparisons, comparisons_conjList e' es]; rfl

theorem comparisons_disjList : ∀ (e : Expr) (es : List Expr),
    (disjList e es).comparisons = ((e :: es).map Expr.comparisons).sum
  | e, [] => by simp [disjList]
  | e, e' :: es => by rw [disjList, Expr.comparisons, comparisons_disjList e' es]; rfl

end XPath
end CmTrace
