import CmTrace.Parser.Host
import CmTrace.Text.Number

/-!
# Paths of an event map

A map says where in an event a value lives with an absolute path of element steps, each
with at most one predicate, and at most one attribute at its end.  The paths that are
read are exactly those that can be written down; evaluated, a path reads what it selects
as a path of XPath, as long as only its last step may match more than one element.
-/

namespace CmTrace
namespace EventMaps

open Text

/-! ## Events -/

/-- An element of a rendered event. -/
structure EventNode where
  name : Text
  attributes : List (Text × Text)
  text : Option Text
  children : List EventNode

namespace EventNode

def attributeOf (node : EventNode) (name : Text) : Option Text :=
  (node.attributes.find? fun entry => entry.1 == name).map Prod.snd

def childrenNamed (node : EventNode) (name : Text) : List EventNode :=
  node.children.filter fun child => child.name == name

end EventNode

/-! ## Paths -/

inductive PathError where
  | notAbsolute (expression : Text)
  | empty (expression : Text)
  | malformedPredicate (path step : Text)
  | malformedStep (path step : Text)
  | misplacedAttribute (expression : Text)
  deriving DecidableEq, Repr

inductive Predicate where
  | attributeEquals (name value : Text)
  | index (n : Nat)
  deriving DecidableEq, Repr

structure Step where
  name : Text
  predicate : Option Predicate
  deriving DecidableEq, Repr

structure ValuePath where
  steps : List Step
  attributeName : Option Text
  deriving DecidableEq, Repr

/-- What stands between two quotes of one kind. -/
def unquote (quote : Char) (rawValue : Text) : Option Text :=
  match rawValue with
  | [] => none
  | c :: rest => if c = quote ∧ rest.getLast? = some quote then some rest.dropLast else none

def parsePredicate (inner : Text) : Option Predicate :=
  match inner with
  | '@' :: rest => do
    let (attributeName, rawValue) ← splitOnce '=' rest
    let value ← (unquote '"' rawValue).or (unquote '\'' rawValue)
    return .attributeEquals attributeName value
  | _ => do
    let index ← parseUnsigned 10 u64Max inner
    if index = 0 then none else some (.index index)

def parseStep (segment expression : Text) : Except PathError Step :=
  match splitOnce '[' segment with
  | none => .ok { name := segment, predicate := none }
  | some (name, opened) =>
    if segment.getLast? = some ']' then
      -- the bracket that closes is the last character
      match parsePredicate opened.dropLast with
      | some predicate => .ok { name := name, predicate := some predicate }
      | none => .error (.malformedPredicate expression segment)
    else .error (.malformedPredicate expression segment)

/-- The steps of the segments after `steps`, and the attribute. -/
def parseSegments (expression : Text) (steps : List Step) :
    List Text → Except PathError (List Step × Option Text)
  | [] => .ok (steps, none)
  | segment :: segments =>
    match segment with
    | [] =>
      -- one slash at the end
      if segments = [] ∧ steps ≠ [] then .ok (steps, none)
      else .error (.malformedStep expression [])
    | '@' :: attributeName =>
      if segments ≠ [] then .error (.misplacedAttribute expression)
      else if attributeName = [] then .error (.malformedStep expression segment)
      else .ok (steps, some attributeName)
    | _ =>
      match parseStep segment expression with
      | .error e => .error e
      | .ok step => parseSegments expression (steps ++ [step]) segments

def parse (expression : Text) : Except PathError ValuePath :=
  match trim expression with
  | '/' :: body =>
    if trim body = [] then .error (.empty expression)
    else
      match parseSegments expression [] (splitOn '/' body) with
      | .error e => .error e
      | .ok (steps, attributeName) =>
        if steps = [] then .error (.empty expression)
        else .ok { steps := steps, attributeName := attributeName }
  | _ => .error (.notAbsolute expression)

/-! ## Evaluation -/

def repeatedElementSeparator : Text := ", ".toList

def read (node : EventNode) (attributeName : Option Text) : Option Text :=
  match attributeName with
  | some name => node.attributeOf name
  | none => node.text

def selectOne (parent : EventNode) (step : Step) : Option EventNode :=
  match step.predicate with
  | none => (parent.childrenNamed step.name).head?
  | some (.index n) => (parent.childrenNamed step.name)[n - 1]?
  | some (.attributeEquals name value) =>
    (parent.childrenNamed step.name).find? fun child => child.attributeOf name == some value

def readFinal (parent : EventNode) (step : Step) (attributeName : Option Text) : Option Text :=
  if step.predicate.isSome then (selectOne parent step).bind fun node => read node attributeName
  else
    match parent.childrenNamed step.name with
    | [] => none
    | [only] => read only attributeName
    | first :: rest =>
      match attributeName with
      | some name => first.attributeOf name
      | none =>
        some (join repeatedElementSeparator ((first :: rest).map fun node => node.text.getD []))

/-- Every step but the last narrows to one element. -/
def walk (attributeName : Option Text) (current : EventNode) : List Step → Option Text
  | [] => read current attributeName
  | [step] => readFinal current step attributeName
  | step :: next :: steps => do
    let child ← selectOne current step
    walk attributeName child (next :: steps)

def evaluate (path : ValuePath) (root : EventNode) : Option Text :=
  match path.steps with
  | [] => none
  | first :: steps =>
    if first.name ≠ root.name ∨ first.predicate.isSome then none
    else walk path.attributeName root steps

/-! ## Paths as they are written -/

def Predicate.written : Predicate → Text
  | .attributeEquals name value => '@' :: (name ++ '=' :: '"' :: (value ++ ['"']))
  | .index n => decimal n

def Step.written (step : Step) : Text :=
  match step.predicate with
  | none => step.name
  | some predicate => step.name ++ '[' :: (predicate.written ++ [']'])

/-- Each step with a slash after it, and the attribute. -/
def ValuePath.written (path : ValuePath) : Text :=
  '/' :: (path.steps.flatMap (fun step => step.written ++ ['/']) ++
    match path.attributeName with
    | none => []
    | some attributeName => '@' :: attributeName)

def Predicate.WellFormed : Predicate → Prop
  | .attributeEquals name value => '/' ∉ name ∧ '=' ∉ name ∧ '/' ∉ value
  | .index n => 0 < n ∧ n ≤ u64Max

structure Step.WellFormed (step : Step) : Prop where
  slash : '/' ∉ step.name
  bracket : '[' ∉ step.name
  element : step.name.head? ≠ some '@'
  named : step.predicate = none → step.name ≠ []
  predicate : ∀ predicate, step.predicate = some predicate → predicate.WellFormed

structure ValuePath.WellFormed (path : ValuePath) : Prop where
  nonempty : path.steps ≠ []
  steps : ∀ step ∈ path.steps, step.WellFormed
  slash : ∀ attributeName, path.attributeName = some attributeName → '/' ∉ attributeName
  ends : ∀ attributeName, path.attributeName = some attributeName →
    ∃ c, attributeName.getLast? = some c ∧ isWhitespace c = false

/-! ## What is written is read -/

theorem unquote_quoted (quote : Char) (value : Text) :
    unquote quote (quote :: (value ++ [quote])) = some value := by
  rw [unquote, if_pos ⟨rfl, List.getLast?_concat⟩, List.dropLast_concat]

theorem parsePredicate_written {predicate : Predicate} (h : predicate.WellFormed) :
    parsePredicate predicate.written = some predicate := by
  cases predicate with
  | attributeEquals name value =>
    show ((splitOnce '=' (name ++ '=' :: '"' :: (value ++ ['"']))).bind _) = _
    rw [splitOnce_append h.2.1, Option.bind_some]
    dsimp only
    rw [unquote_quoted]
    rfl
  | index n =>
    have hhead : ∀ rest, decimal n ≠ '@' :: rest := fun rest heq =>
      not_mem_decimal (by decide : ('@' : Char).isDigit = false) n (heq ▸ List.mem_cons_self)
    show parsePredicate (decimal n) = _
    rw [parsePredicate]
    · rw [parseUnsigned_decimal h.2]
      exact if_neg (Nat.ne_of_gt h.1)
    · exact hhead

theorem Step.written_ne_nil {step : Step} (h : step.WellFormed) : step.written ≠ [] := by
  rw [Step.written]
  cases hp : step.predicate with
  | none => exact h.named hp
  | some predicate => exact List.append_ne_nil_of_right_ne_nil _ (List.cons_ne_nil _ _)

theorem Step.written_head {step : Step} (h : step.WellFormed) : step.written.head? ≠ some '@' := by
  rw [Step.written]
  cases step.predicate with
  | none => exact h.element
  | some predicate =>
    dsimp only
    rw [List.head?_append]
    cases hn : step.name.head? with
    | none => simp
    | some c =>
      intro heq
      exact h.element (hn.trans heq)

theorem Predicate.slash_not_mem {predicate : Predicate} (h : predicate.WellFormed) :
    '/' ∉ predicate.written := by
  cases predicate with
  | attributeEquals name value => simp [Predicate.written, h.1, h.2.2]
  | index n => exact not_mem_decimal (by decide) n

theorem Step.slash_not_mem {step : Step} (h : step.WellFormed) : '/' ∉ step.written := by
  rw [Step.written]
  cases hp : step.predicate with
  | none => exact h.slash
  | some predicate => simp [h.slash, Predicate.slash_not_mem (h.predicate predicate hp)]

theorem parseStep_written {step : Step} (h : step.WellFormed) (expression : Text) :
    parseStep step.written expression = .ok step := by
  rw [parseStep, Step.written]
  cases hp : step.predicate with
  | none =>
    dsimp only
    rw [splitOnce_eq_none.mpr h.bracket]
    dsimp only
    rw [← hp]
  | some predicate =>
    have hlast : (step.name ++ '[' :: (predicate.written ++ [']'])).getLast? = some ']' := by
      rw [← List.cons_append, ← List.append_assoc, List.getLast?_concat]
    dsimp only
    rw [splitOnce_append h.bracket]
    dsimp only
    rw [if_pos hlast, List.dropLast_concat, parsePredicate_written (h.predicate predicate hp)]
    dsimp only
    rw [← hp]

def lastSegment : Option Text → Text
  | none => []
  | some attributeName => '@' :: attributeName

theorem parseSegments_written (expression : Text) {steps : List Step}
    (h : ∀ step ∈ steps, step.WellFormed) {attributeName : Option Text}
    (hattribute : attributeName ≠ some []) (done : List Step) (hne : done ++ steps ≠ []) :
    parseSegments expression done (steps.map Step.written ++ [lastSegment attributeName]) =
      .ok (done ++ steps, attributeName) := by
  induction steps generalizing done with
  | nil =>
    rw [List.append_nil] at hne
    rw [List.map_nil, List.nil_append, List.append_nil]
    cases attributeName with
    | none => exact if_pos ⟨rfl, hne⟩
    | some name =>
      have hname : name ≠ [] := fun heq => hattribute (congrArg some heq)
      show parseSegments expression done ['@' :: name] = _
      rw [parseSegments, if_neg (by simp), if_neg hname]
  | cons step steps ih =>
    have hstep := h step List.mem_cons_self
    have hrest := ih (fun s hs => h s (List.mem_cons_of_mem step hs)) (done ++ [step]) (by simp)
    rw [List.append_assoc, List.singleton_append] at hrest
    obtain ⟨c, rest, hwritten⟩ := List.exists_cons_of_ne_nil (Step.written_ne_nil hstep)
    have hat : c ≠ '@' := fun heq => Step.written_head hstep (by rw [hwritten, heq]; rfl)
    have hparse := parseStep_written hstep expression
    rw [List.map_cons, List.cons_append]
    rw [hwritten] at hparse ⊢
    rw [parseSegments]
    · rw [hparse]
      exact hrest
    · intro heq
      cases heq
    · intro attributeName heq
      exact hat (List.cons.inj heq).1

theorem ValuePath.attribute_ne {path : ValuePath} (h : path.WellFormed) :
    path.attributeName ≠ some [] := fun heq => by
  obtain ⟨c, hc, -⟩ := h.ends [] heq
  cases hc

theorem join_segments (steps : List Step) (last : Text) :
    join ['/'] (steps.map Step.written ++ [last]) =
      steps.flatMap (fun step => step.written ++ ['/']) ++ last := by
  induction steps with
  | nil => rfl
  | cons step steps ih =>
    have hcons : ∀ pieces : List Text, pieces ≠ [] →
        join ['/'] (step.written :: pieces) = step.written ++ ['/'] ++ join ['/'] pieces := by
      intro pieces hne
      cases pieces with
      | nil => exact absurd rfl hne
      | cons piece pieces => rfl
    rw [List.map_cons, List.cons_append, hcons _ (by simp), ih, List.flatMap_cons,
      List.append_assoc (step.written ++ ['/'])]

theorem ValuePath.written_eq (path : ValuePath) :
    path.written = '/' :: (path.steps.flatMap (fun step => step.written ++ ['/']) ++
      lastSegment path.attributeName) := by
  rw [written]
  cases path.attributeName <;> rfl

theorem ValuePath.trim_written {path : ValuePath} (h : path.WellFormed) :
    trim path.written = path.written := by
  have hlast : ∃ c, path.written.getLast? = some c ∧ isWhitespace c = false := by
    rw [written_eq]
    cases ha : path.attributeName with
    | none =>
      have hsteps := List.dropLast_append_getLast h.nonempty
      refine ⟨'/', ?_, rfl⟩
      rw [← hsteps, List.flatMap_append, List.flatMap_singleton, lastSegment, List.append_nil,
        ← List.append_assoc, ← List.cons_append, List.getLast?_concat]
    | some attributeName =>
      obtain ⟨c, hc, hblank⟩ := h.ends attributeName ha
      have hends : '/' :: (path.steps.flatMap (fun step => step.written ++ ['/']) ++
          lastSegment (some attributeName)) =
            ('/' :: (path.steps.flatMap (fun step => step.written ++ ['/']) ++ ['@'])) ++
              attributeName := by
        simp [lastSegment]
      exact ⟨c, by rw [hends, List.getLast?_append, hc, Option.some_or], hblank⟩
  obtain ⟨c, hc, hblank⟩ := hlast
  exact trim_of_ends (by decide : isWhitespace '/' = false) hblank hc rfl

theorem parse_written {path : ValuePath} (h : path.WellFormed) : parse path.written = .ok path := by
  have hslash : ∀ piece ∈ path.steps.map Step.written ++ [lastSegment path.attributeName],
      '/' ∉ piece := by
    intro piece hpiece
    rcases List.mem_append.mp hpiece with hpiece | hpiece
    · obtain ⟨step, hstep, rfl⟩ := List.mem_map.mp hpiece
      exact Step.slash_not_mem (h.steps step hstep)
    · rw [List.mem_singleton.mp hpiece]
      cases ha : path.attributeName with
      | none => exact List.not_mem_nil
      | some attributeName =>
        have hname := h.slash attributeName ha
        simp [lastSegment, hname]
  have hbody : trim (path.steps.flatMap (fun step => step.written ++ ['/']) ++
      lastSegment path.attributeName) ≠ [] := by
    obtain ⟨step, steps, hsteps⟩ := List.exists_cons_of_ne_nil h.nonempty
    intro hnil
    rw [trim_nil_iff, isBlank, List.all_eq_true] at hnil
    have hblank := hnil '/' (by simp [hsteps])
    cases hblank
  have htrim := ValuePath.trim_written h
  have hsegments := parseSegments_written path.written h.steps (ValuePath.attribute_ne h) []
    h.nonempty
  rw [ValuePath.written_eq] at htrim hsegments ⊢
  rw [parse, htrim]
  refine (if_neg hbody).trans ?_
  rw [← join_segments, splitOn_join hslash (by simp), join_segments, hsegments]
  exact if_neg h.nonempty

/-! ## What is read can be written -/

theorem unquote_eq_some {quote : Char} {rawValue value : Text}
    (h : unquote quote rawValue = some value) : rawValue = quote :: (value ++ [quote]) := by
  cases rawValue with
  | nil => cases h
  | cons c rest =>
    rw [unquote] at h
    split_ifs at h with hc
    obtain ⟨rfl, hlast⟩ := hc
    obtain ⟨front, rfl⟩ := List.getLast?_eq_some_iff.mp hlast
    rw [List.dropLast_concat, Option.some_inj] at h
    rw [h]

theorem parsePredicate_wellFormed {inner : Text} {predicate : Predicate} (hslash : '/' ∉ inner)
    (h : parsePredicate inner = some predicate) : predicate.WellFormed := by
  unfold parsePredicate at h
  split at h
  · rename_i rest
    obtain ⟨⟨name, rawValue⟩, hsplit, h⟩ := Option.bind_eq_some_iff.mp h
    obtain ⟨value, hvalue, h⟩ := Option.bind_eq_some_iff.mp h
    obtain rfl := Option.some_inj.mp h
    obtain ⟨rfl, hname⟩ := splitOnce_eq_some hsplit
    have hquoted : ∃ quote, rawValue = quote :: (value ++ [quote]) := by
      rcases Option.or_eq_some_iff.mp hvalue with hvalue | ⟨-, hvalue⟩
      · exact ⟨_, unquote_eq_some hvalue⟩
      · exact ⟨_, unquote_eq_some hvalue⟩
    obtain ⟨quote, rfl⟩ := hquoted
    simp only [List.mem_cons, List.mem_append, not_or] at hslash
    exact ⟨hslash.2.1, hname, hslash.2.2.2.2.1⟩
  · obtain ⟨n, hn, h⟩ := Option.bind_eq_some_iff.mp h
    split_ifs at h with hzero
    obtain rfl := Option.some_inj.mp h
    exact ⟨Nat.pos_of_ne_zero hzero, parseUnsigned_le hn⟩

theorem parseStep_wellFormed {segment expression : Text} {step : Step} (hslash : '/' ∉ segment)
    (hne : segment ≠ []) (hhead : segment.head? ≠ some '@')
    (h : parseStep segment expression = .ok step) : step.WellFormed := by
  rw [parseStep] at h
  cases hsplit : splitOnce '[' segment with
  | none =>
    rw [hsplit] at h
    cases h
    exact ⟨hslash, splitOnce_eq_none.mp hsplit, hhead, fun _ => hne, fun _ hp => by cases hp⟩
  | some parts =>
    obtain ⟨name, opened⟩ := parts
    obtain ⟨rfl, hbracket⟩ := splitOnce_eq_some hsplit
    rw [hsplit] at h
    dsimp only at h
    split_ifs at h with hlast
    cases hp : parsePredicate opened.dropLast with
    | none =>
      rw [hp] at h
      cases h
    | some predicate =>
      rw [hp] at h
      cases h
      rw [List.mem_append, not_or] at hslash
      have hinner : '/' ∉ opened.dropLast := fun hmem =>
        hslash.2 (List.mem_cons_of_mem _ (List.dropLast_subset opened hmem))
      refine ⟨hslash.1, hbracket, fun hat => hhead ?_, fun hnone => (by cases hnone), ?_⟩
      · rw [List.head?_append, hat, Option.some_or]
      · rintro p hsome
        obtain rfl := Option.some_inj.mp hsome
        exact parsePredicate_wellFormed hinner hp

theorem parseSegments_wellFormed {expression : Text} {segments : List Text} {done out : List Step}
    {attributeName : Option Text} (hslash : ∀ segment ∈ segments, '/' ∉ segment)
    (hdone : ∀ step ∈ done, step.WellFormed)
    (h : parseSegments expression done segments = .ok (out, attributeName)) :
    (∀ step ∈ out, step.WellFormed) ∧ ∀ name, attributeName = some name →
      name ≠ [] ∧ ∃ front, segments = front ++ ['@' :: name] := by
  induction segments generalizing done with
  | nil =>
    rw [parseSegments] at h
    cases h
    exact ⟨hdone, fun name hname => by cases hname⟩
  | cons segment segments ih =>
    unfold parseSegments at h
    split at h
    · split_ifs at h
      cases h
      exact ⟨hdone, fun name hname => by cases hname⟩
    · rename_i name
      split_ifs at h with hlast hempty
      cases h
      refine ⟨hdone, fun name' hname => ?_⟩
      obtain rfl := Option.some_inj.mp hname
      exact ⟨hempty, [], by rw [not_not.mp hlast]; rfl⟩
    · rename_i hne hhead
      cases hparse : parseStep segment expression with
      | error e =>
        rw [hparse] at h
        cases h
      | ok step =>
        rw [hparse] at h
        have hstep : step.WellFormed := by
          refine parseStep_wellFormed (hslash segment List.mem_cons_self) hne (fun hat => ?_) hparse
          obtain ⟨rest, hrest⟩ := List.head?_eq_some_iff.mp hat
          exact hhead rest hrest
        obtain ⟨hout, hattribute⟩ := ih (fun s hs => hslash s (List.mem_cons_of_mem _ hs))
          (fun s hs => (List.mem_append.mp hs).elim (hdone s) fun hs =>
            List.mem_singleton.mp hs ▸ hstep) h
        refine ⟨hout, fun name hname => ?_⟩
        obtain ⟨hne', front, hfront⟩ := hattribute name hname
        exact ⟨hne', segment :: front, by rw [hfront]; rfl⟩

theorem mem_join_of_last {front : List Text} {last : Text} {c : Char} (h : last.getLast? = some c) :
    (join ['/'] (front ++ [last])).getLast? = some c := by
  induction front with
  | nil => exact h
  | cons piece front ih =>
    have hcons : ∃ next pieces, front ++ [last] = next :: pieces := by
      cases front with
      | nil => exact ⟨last, [], rfl⟩
      | cons next front => exact ⟨next, front ++ [last], rfl⟩
    obtain ⟨next, pieces, hpieces⟩ := hcons
    rw [List.cons_append, hpieces]
    rw [hpieces] at ih
    show (piece ++ ['/'] ++ join ['/'] (next :: pieces)).getLast? = some c
    rw [List.getLast?_append, ih, Option.some_or]

theorem parse_wellFormed {expression : Text} {path : ValuePath} (h : parse expression = .ok path) :
    path.WellFormed := by
  unfold parse at h
  split at h
  · rename_i body htrim
    split_ifs at h with hbody
    cases hsegments : parseSegments expression [] (splitOn '/' body) with
    | error e =>
      rw [hsegments] at h
      cases h
    | ok out =>
      obtain ⟨steps, attributeName⟩ := out
      rw [hsegments] at h
      dsimp only at h
      split_ifs at h with hne
      cases h
      obtain ⟨hsteps, hattribute⟩ := parseSegments_wellFormed
        (fun segment hsegment hmem => (mem_of_mem_splitOn hsegment '/' hmem).2 rfl)
        (fun _ hs => absurd hs List.not_mem_nil) hsegments
      refine ⟨hne, hsteps, fun name hname hmem => ?_, fun name hname => ?_⟩
      · obtain ⟨-, front, hfront⟩ := hattribute name hname
        have hlast : '@' :: name ∈ splitOn '/' body := by simp [hfront]
        exact (mem_of_mem_splitOn hlast '/' (List.mem_cons_of_mem _ hmem)).2 rfl
      · -- the last segment ends where the trimmed expression does
        obtain ⟨hname, front, hfront⟩ := hattribute name hname
        obtain ⟨c, hc⟩ := Option.ne_none_iff_exists'.mp (mt List.getLast?_eq_none_iff.mp hname)
        have hlast : ('@' :: name).getLast? = some c := by
          rw [← List.singleton_append, List.getLast?_append, hc, Option.some_or]
        have hjoined : body.getLast? = some c := by
          rw [← join_splitOn '/' body, hfront]
          exact mem_join_of_last hlast
        refine ⟨c, hc, last_of_trim (trim_trim expression) ?_⟩
        rw [htrim, ← List.singleton_append, List.getLast?_append, hjoined, Option.some_or]
  · cases h

/-- The paths that are read are those that are well formed, and a path is read from what
it is written as. -/
theorem parse_iff (path : ValuePath) :
    ((∃ expression, parse expression = .ok path) ↔ path.WellFormed) ∧
      (path.WellFormed → parse path.written = .ok path) :=
  ⟨⟨fun ⟨_, h⟩ => parse_wellFormed h, fun h => ⟨path.written, parse_written h⟩⟩, parse_written⟩

/-! ## What a path selects -/

/-- The children of `parent` that a step selects, numbered among those of its name. -/
def Step.select (step : Step) (parent : EventNode) : List EventNode :=
  match step.predicate with
  | none => parent.childrenNamed step.name
  | some (.index n) => (parent.childrenNamed step.name)[n - 1]?.toList
  | some (.attributeEquals name value) =>
    (parent.childrenNamed step.name).filter fun child => child.attributeOf name == some value

/-- The elements that a path of XPath selects below `nodes`. -/
def selectFrom (nodes : List EventNode) (steps : List Step) : List EventNode :=
  steps.foldl (fun nodes step => nodes.flatMap step.select) nodes

/-- The document that `root` is the element of. -/
def document (root : EventNode) : EventNode :=
  { name := [], attributes := [], text := none, children := [root] }

def ValuePath.selected (path : ValuePath) (root : EventNode) : List EventNode :=
  selectFrom [document root] path.steps

/-- A path is narrow when no step but the last selects a second element. -/
def ValuePath.Narrow (path : ValuePath) (root : EventNode) : Prop :=
  (∀ step, path.steps.head? = some step → step.predicate = none) ∧
    ∀ steps, steps <+: path.steps → steps ≠ path.steps →
      (selectFrom [document root] steps).length ≤ 1

def joinedText (nodes : List EventNode) : Text :=
  join repeatedElementSeparator (nodes.map fun node => node.text.getD [])

/-- A value comes from one element, or from the texts of elements next to each other. -/
def ReadsFrom (attributeName : Option Text) (nodes : List EventNode) (value : Text) : Prop :=
  (∃ node ∈ nodes, read node attributeName = some value) ∨
    attributeName = none ∧ ∃ siblings, siblings <:+: nodes ∧ 2 ≤ siblings.length ∧
      value = joinedText siblings

/-- What is read of the elements that a path selects. -/
def readSelected (joins : Bool) (attributeName : Option Text) : List EventNode → Option Text
  | [] => none
  | [only] => read only attributeName
  | first :: second :: rest =>
    if joins && attributeName.isNone then some (joinedText (first :: second :: rest))
    else read first attributeName

/-- Only a last step without a predicate joins what it selects. -/
def ValuePath.joins (path : ValuePath) : Bool :=
  path.steps.getLast?.any fun step => step.predicate.isNone

theorem selectOne_eq (parent : EventNode) (step : Step) :
    selectOne parent step = (step.select parent).head? := by
  unfold selectOne Step.select
  cases step.predicate with
  | none => rfl
  | some predicate =>
    cases predicate with
    | index n => exact (Option.head?_toList ..).symm
    | attributeEquals name value => exact (List.head?_filter ..).symm

theorem readFinal_eq (parent : EventNode) (step : Step) (attributeName : Option Text) :
    readFinal parent step attributeName =
      readSelected step.predicate.isNone attributeName (step.select parent) := by
  unfold readFinal
  cases hpredicate : step.predicate with
  | some predicate =>
    show (selectOne parent step).bind _ = _
    rw [selectOne_eq]
    generalize step.select parent = nodes
    match nodes with
    | [] => rfl
    | [only] => rfl
    | first :: second :: rest => rfl
  | none =>
    have hselect : step.select parent = parent.childrenNamed step.name := by
      unfold Step.select
      rw [hpredicate]
    rw [if_neg (by decide), hselect]
    generalize parent.childrenNamed step.name = nodes
    match nodes with
    | [] => rfl
    | [only] => rfl
    | first :: second :: rest =>
      cases attributeName with
      | none => rfl
      | some name => rfl

theorem ReadsFrom.mono {attributeName : Option Text} {nodes nodes' : List EventNode} {value : Text}
    (h : ReadsFrom attributeName nodes value) (hsub : nodes <:+: nodes') :
    ReadsFrom attributeName nodes' value :=
  h.imp (fun ⟨node, hmem, hread⟩ => ⟨node, hsub.mem hmem, hread⟩)
    fun ⟨hnone, siblings, hin, hlen, heq⟩ => ⟨hnone, siblings, hin.trans hsub, hlen, heq⟩

theorem readSelected_readsFrom {joins : Bool} {attributeName : Option Text}
    {nodes : List EventNode} {value : Text}
    (h : readSelected joins attributeName nodes = some value) :
    ReadsFrom attributeName nodes value := by
  match nodes with
  | [] => cases h
  | [only] => exact .inl ⟨only, List.mem_cons_self, h⟩
  | first :: second :: rest =>
    change (if (joins && attributeName.isNone) = true then
      some (joinedText (first :: second :: rest)) else read first attributeName) = some value at h
    by_cases hjoins : (joins && attributeName.isNone) = true
    · rw [if_pos hjoins] at h
      apply Or.inr
      refine ⟨Option.isNone_iff_eq_none.mp (Bool.and_eq_true_iff.mp hjoins).2, _, List.infix_refl _,
        ?_, (Option.some_inj.mp h).symm⟩
      simp
    · rw [if_neg hjoins] at h
      exact .inl ⟨first, List.mem_cons_self, h⟩

theorem selectFrom_infix {nodes nodes' : List EventNode} (h : nodes <:+: nodes')
    (steps : List Step) : selectFrom nodes steps <:+: selectFrom nodes' steps := by
  induction steps generalizing nodes nodes' with
  | nil => exact h
  | cons step steps ih =>
    obtain ⟨before, after, rfl⟩ := h
    apply ih
    show nodes.flatMap step.select <:+: (before ++ nodes ++ after).flatMap step.select
    rw [List.flatMap_append, List.flatMap_append]
    exact ⟨_, _, rfl⟩

theorem selectFrom_cons (current : EventNode) (step : Step) (steps : List Step) :
    selectFrom [current] (step :: steps) = selectFrom (step.select current) steps := by
  show selectFrom (step.select current ++ []) steps = _
  rw [List.append_nil]

theorem selectFrom_nil (steps : List Step) : selectFrom [] steps = [] := by
  induction steps with
  | nil => rfl
  | cons step steps ih => exact ih

theorem walk_readsFrom {attributeName : Option Text} {steps : List Step} {current : EventNode}
    {value : Text} (h : walk attributeName current steps = some value) :
    ReadsFrom attributeName (selectFrom [current] steps) value := by
  induction steps generalizing current with
  | nil => exact .inl ⟨current, List.mem_cons_self, h⟩
  | cons step steps ih =>
    rw [selectFrom_cons]
    cases steps with
    | nil =>
      rw [walk, readFinal_eq] at h
      exact readSelected_readsFrom h
    | cons next steps =>
      rw [walk, selectOne_eq] at h
      obtain ⟨child, hchild, hwalk⟩ := Option.bind_eq_some_iff.mp h
      apply (ih hwalk).mono
      apply selectFrom_infix
      obtain ⟨rest, hrest⟩ := List.head?_eq_some_iff.mp hchild
      rw [hrest]
      exact ⟨[], rest, rfl⟩

theorem walk_eq {joins : Bool} {attributeName : Option Text} {steps : List Step}
    {current : EventNode}
    (hjoins : ∀ step, steps.getLast? = some step → joins = step.predicate.isNone)
    (hnarrow : ∀ before, before <+: steps → before ≠ steps →
      (selectFrom [current] before).length ≤ 1) :
    walk attributeName current steps =
      readSelected joins attributeName (selectFrom [current] steps) := by
  induction steps generalizing current with
  | nil => rfl
  | cons step steps ih =>
    rw [selectFrom_cons]
    cases steps with
    | nil =>
      rw [walk, readFinal_eq, hjoins step rfl]
      rfl
    | cons next steps =>
      have hlen := hnarrow [step] ⟨next :: steps, rfl⟩ (by simp)
      rw [selectFrom_cons] at hlen
      rw [walk, selectOne_eq]
      -- the step before the last selects at most one element
      match hnodes : step.select current with
      | [] =>
        rw [selectFrom_nil]
        rfl
      | [child] =>
        apply ih hjoins
        intro before hbefore hne
        have hcons := hnarrow (step :: before) (List.cons_prefix_cons.mpr ⟨rfl, hbefore⟩)
          fun heq => hne (List.cons.inj heq).2
        rwa [selectFrom_cons, hnodes] at hcons
      | first :: second :: rest =>
        rw [hnodes] at hlen
        simp [selectFrom] at hlen

theorem select_document {step : Step} (hpredicate : step.predicate = none) (root : EventNode) :
    step.select (document root) = if step.name = root.name then [root] else [] := by
  unfold Step.select
  rw [hpredicate]
  show [root].filter (fun child => child.name == step.name) = _
  by_cases hname : step.name = root.name
  · rw [if_pos hname, List.filter_cons_of_pos (by simp [hname]), List.filter_nil]
  · rw [if_neg hname, List.filter_cons_of_neg (by simpa using fun h => hname h.symm),
      List.filter_nil]

end EventMaps
end CmTrace
