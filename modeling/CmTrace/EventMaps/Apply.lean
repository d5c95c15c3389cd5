import CmTrace.Collections.FirstCopies
import CmTrace.Collections.InsertionMap
import CmTrace.EventMaps.Path

/-!
# Maps of events

A map turns an event into columns: its templates name variables, whose values lie where
their paths say, and are translated by tables.  A template is rendered in one pass from
the left, so that no value is ever read as part of a template.  Of the maps that are
registered for one kind of event the last one applies.
-/

namespace CmTrace
namespace EventMaps

open Collections Text

/-! ## Maps -/

/-- The column that an entry writes. -/
inductive MapProperty where
  | userName
  | remoteHost
  | executableInfo
  | payloadData (slot : Nat)
  | other (raw : Text)
  deriving DecidableEq, Repr

def MapProperty.parse (raw : Text) : MapProperty :=
  let trimmed := trim raw
  if eqIgnoreAsciiCase trimmed "username".toList then .userName
  else if eqIgnoreAsciiCase trimmed "remotehost".toList then .remoteHost
  else if eqIgnoreAsciiCase trimmed "executableinfo".toList then .executableInfo
  else if eqIgnoreAsciiCase (trimmed.take 11) "payloaddata".toList then
    match parseUnsigned 10 u8Max (trimmed.drop 11) with
    | some slot => if 1 ≤ slot ∧ slot ≤ 6 then .payloadData slot else .other trimmed
    | none => .other trimmed
  else .other trimmed

structure ValueBinding where
  name : Text
  value : Text
  deriving DecidableEq, Repr

/-- A table of texts by raw value. -/
structure Lookup where
  name : Text
  default : Option Text
  values : InsertionMap Text Text

def Lookup.translate (lookup : Lookup) (raw : Text) : Option Text :=
  (lookup.values.get? raw).or lookup.default

structure CompiledBinding where
  placeholder : Text
  path : Option ValuePath

def ValueBinding.compile (binding : ValueBinding) : CompiledBinding :=
  { placeholder := '%' :: (binding.name ++ ['%']), path := (parse binding.value).toOption }

structure MapEntry where
  property : MapProperty
  propertyValue : Text
  values : List ValueBinding

namespace MapEntry

def template (entry : MapEntry) : Text := entry.propertyValue

def bindings (entry : MapEntry) : List ValueBinding := entry.values

def compiled (entry : MapEntry) : List CompiledBinding := entry.values.map ValueBinding.compile

end MapEntry

structure EventMap where
  eventId : Nat
  channel : Text
  provider : Text
  maps : List MapEntry
  lookups : List Lookup

def EventMap.lookupFor (map : EventMap) (name : Text) : Option Lookup :=
  map.lookups.find? fun lookup => eqIgnoreAsciiCase lookup.name name

/-! ## Applying a map -/

structure MappedValue where
  property : MapProperty
  text : Text
  unresolved : List Text
  deriving DecidableEq, Repr

def MappedValue.isComplete (value : MappedValue) : Bool := value.unresolved.isEmpty

structure MappedEvent where
  values : List MappedValue
  invalidPaths : List (Text × Text)
  deriving DecidableEq, Repr

def MappedEvent.valueFor (event : MappedEvent) (property : MapProperty) : Option Text :=
  (event.values.find? fun value => value.property == property).map MappedValue.text

/-- Append an element that the list does not have. -/
def noteOnce {A : Type} [DecidableEq A] (xs : List A) (a : A) : List A :=
  if a ∈ xs then xs else xs ++ [a]

/-- What lies between two percent signs names a variable. -/
def isName (name : Text) : Bool := !name.isEmpty && !name.any isWhitespace

theorem length_of_splitOnce {sep : Char} {s before after : Text}
    (h : splitOnce sep s = some (before, after)) : after.length < s.length := by
  have hs := congrArg List.length (splitOnce_eq_some h).1
  rw [List.length_append, List.length_cons] at hs
  omega

/-- The template from `rest` on, after `out` has been written. -/
def renderFrom (values : InsertionMap Text Text) (out : Text) (unresolved : List Text)
    (rest : Text) : Text × List Text :=
  match hopen : splitOnce '%' rest with
  | none => (out ++ rest, unresolved)
  | some (before, after) =>
    have := length_of_splitOnce hopen
    match hclose : splitOnce '%' after with
    | none => (out ++ before ++ '%' :: after, unresolved)
    | some (name, following) =>
      have := length_of_splitOnce hclose
      if isName name then
        match values.get? name with
        | some value => renderFrom values (out ++ before ++ value) unresolved following
        | none =>
          renderFrom values (out ++ before ++ '%' :: (name ++ ['%'])) (noteOnce unresolved name)
            following
      else
        -- the second sign may still open a placeholder
        renderFrom values (out ++ before ++ ['%']) unresolved after
termination_by rest.length

def render (template : Text) (values : InsertionMap Text Text) : Text × List Text :=
  renderFrom values [] [] template

def resolve (map : EventMap) (event : EventNode) (binding : ValueBinding)
    (compiled : CompiledBinding) : Option Text :=
  (compiled.path.bind fun path => evaluate path event).bind fun raw =>
    match map.lookupFor binding.name with
    | some lookup => lookup.translate raw
    | none => some raw

def defects (invalidPaths : List (Text × Text)) (binding : ValueBinding)
    (compiled : CompiledBinding) : List (Text × Text) :=
  match compiled.path with
  | some _ => invalidPaths
  | none => noteOnce invalidPaths (binding.name, binding.value)

/-- The bindings one after another, each only if the template has its placeholder. -/
def bindAll (map : EventMap) (event : EventNode) (template : Text)
    (resolved : InsertionMap Text Text) (invalidPaths : List (Text × Text)) :
    List (ValueBinding × CompiledBinding) → InsertionMap Text Text × List (Text × Text)
  | [] => (resolved, invalidPaths)
  | (binding, compiled) :: rest =>
    if Parser.contains template compiled.placeholder then
      bindAll map event template
        (match resolve map event binding compiled with
          | some translated => resolved.set binding.name translated
          | none => resolved)
        (defects invalidPaths binding compiled) rest
    else bindAll map event template resolved invalidPaths rest

def applyEntry (map : EventMap) (entry : MapEntry) (event : EventNode)
    (invalidPaths : List (Text × Text)) : MappedValue × List (Text × Text) :=
  let bound := bindAll map event entry.template ∅ invalidPaths (entry.bindings.zip entry.compiled)
  let rendered := render entry.template bound.1
  ({ property := entry.property, text := rendered.1, unresolved := rendered.2 }, bound.2)

def applyEntries (map : EventMap) (event : EventNode) (result : MappedEvent) :
    List MapEntry → MappedEvent
  | [] => result
  | entry :: entries =>
    let applied := applyEntry map entry event result.invalidPaths
    applyEntries map event
      { values := result.values ++ [applied.1], invalidPaths := applied.2 } entries

def applyMap (map : EventMap) (event : EventNode) : MappedEvent :=
  applyEntries map event { values := [], invalidPaths := [] } map.maps

/-! ## The registry -/

structure MapKey where
  channel : Text
  provider : Text
  eventId : Nat
  deriving DecidableEq, Repr

def MapKey.new (channel provider : Text) (eventId : Nat) : MapKey :=
  { channel  := toAsciiLowercase (trim channel)
    provider := toAsciiLowercase (trim provider)
    eventId  := eventId }

structure MapRegistry where
  maps : InsertionMap MapKey EventMap

namespace MapRegistry

def new : MapRegistry := { maps := ∅ }

/-- The registry with the map, and the map that it replaced. -/
def insert (registry : MapRegistry) (map : EventMap) : MapRegistry × Option EventMap :=
  let key := MapKey.new map.channel map.provider map.eventId
  ({ maps := registry.maps.set key map }, registry.maps.get? key)

def find (registry : MapRegistry) (channel provider : Text) (eventId : Nat) : Option EventMap :=
  registry.maps.get? (MapKey.new channel provider eventId)

def len (registry : MapRegistry) : Nat := registry.maps.size

def isEmpty (registry : MapRegistry) : Bool := registry.maps.entries.isEmpty

def apply (registry : MapRegistry) (channel provider : Text) (eventId : Nat) (event : EventNode) :
    Option MappedEvent :=
  (registry.find channel provider eventId).map fun map => applyMap map event

end MapRegistry

/-! ## One pass from the left -/

/-- A piece of a template. -/
inductive Piece where
  | literal (text : Text)
  | placeholder (name : Text)

def Piece.source : Piece → Text
  | .literal text => text
  | .placeholder name => '%' :: (name ++ ['%'])

def Piece.shown (values : InsertionMap Text Text) : Piece → Text
  | .literal text => text
  | .placeholder name => (values.get? name).getD ('%' :: (name ++ ['%']))

/-- The name that a piece needs and has no value for. -/
def Piece.unbound (values : InsertionMap Text Text) : Piece → Option Text
  | .literal _ => none
  | .placeholder name => if (values.get? name).isSome then none else some name

def Piece.sources (pieces : List Piece) : Text := pieces.flatMap Piece.source

def Opens (s : Text) : Prop :=
  ∃ name following, isName name = true ∧ '%' ∉ name ∧ s = '%' :: (name ++ '%' :: following)

/-- No literal hides the beginning of a placeholder. -/
inductive Leftmost : List Piece → Prop
  | nil : Leftmost []
  | literal {text : Text} {pieces : List Piece}
      (h : ∀ before after, text = before ++ after → after ≠ [] →
        ¬ Opens (after ++ Piece.sources pieces)) (rest : Leftmost pieces) :
      Leftmost (.literal text :: pieces)
  | placeholder {name : Text} {pieces : List Piece} (h : isName name = true) (hsign : '%' ∉ name)
      (rest : Leftmost pieces) : Leftmost (.placeholder name :: pieces)

theorem exists_leftmost (template : Text) :
    ∃ pieces, Leftmost pieces ∧ Piece.sources pieces = template := by
  induction hn : template.length using Nat.strong_induction_on generalizing template with
  | _ n ih =>
    by_cases hopens : Opens template
    · obtain ⟨name, following, hname, hsign, rfl⟩ := hopens
      obtain ⟨pieces, hleft, hsource⟩ := ih following.length (by simp at hn; omega) following rfl
      refine ⟨.placeholder name :: pieces, .placeholder hname hsign hleft, ?_⟩
      show '%' :: (name ++ ['%']) ++ Piece.sources pieces = _
      rw [hsource]
      simp
    · cases template with
      | nil => exact ⟨[], .nil, rfl⟩
      | cons c rest =>
        obtain ⟨pieces, hleft, hsource⟩ := ih rest.length (by simp at hn; omega) rest rfl
        refine ⟨.literal [c] :: pieces, .literal ?_ hleft, congrArg (List.cons c) hsource⟩
        intro before after heq hafter
        have hall : after = [c] := by
          cases before with
          | nil => exact heq.symm
          | cons b before =>
            have hlen := congrArg List.length heq
            simp at hlen
            exact absurd hlen.2 hafter
        rw [hall, hsource]
        exact hopens

section Rendering

variable {values : InsertionMap Text Text} {out : Text} {unresolved : List Text}

theorem renderFrom_none {rest : Text} (h : splitOnce '%' rest = none) :
    renderFrom values out unresolved rest = (out ++ rest, unresolved) := by
  rw [renderFrom]
  split
  · rfl
  · rename_i hsome
    rw [h] at hsome
    cases hsome

theorem renderFrom_unpaired {rest before after : Text}
    (hopen : splitOnce '%' rest = some (before, after)) (hclose : splitOnce '%' after = none) :
    renderFrom values out unresolved rest = (out ++ before ++ '%' :: after, unresolved) := by
  rw [renderFrom]
  split
  · rename_i hnone
    rw [hopen] at hnone
    cases hnone
  · rename_i hsome
    rw [hopen] at hsome
    cases hsome
    split
    · rfl
    · rename_i hsome
      rw [hclose] at hsome
      cases hsome

theorem renderFrom_paired {rest before after name following : Text}
    (hopen : splitOnce '%' rest = some (before, after))
    (hclose : splitOnce '%' after = some (name, following)) :
    renderFrom values out unresolved rest =
      if isName name = true then
        renderFrom values (out ++ before ++ (Piece.placeholder name).shown values)
          (((Piece.placeholder name).unbound values).toList.foldl noteOnce unresolved) following
      else renderFrom values (out ++ before ++ ['%']) unresolved after := by
  rw [renderFrom]
  split
  · rename_i hnone
    rw [hopen] at hnone
    cases hnone
  · rename_i hsome
    rw [hopen] at hsome
    cases hsome
    split
    · rename_i hnone
      rw [hclose] at hnone
      cases hnone
    · rename_i hsome
      rw [hclose] at hsome
      cases hsome
      have hshown : (Piece.placeholder name).shown values =
          (values.get? name).getD ('%' :: (name ++ ['%'])) := rfl
      have hunbound : (Piece.placeholder name).unbound values =
          if (values.get? name).isSome then none else some name := rfl
      rw [hshown, hunbound]
      cases values.get? name <;> rfl

theorem renderFrom_nil : renderFrom values out unresolved [] = (out, unresolved) := by
  rw [renderFrom]
  show (out ++ [], unresolved) = _
  rw [List.append_nil]

theorem renderFrom_cons_of_ne {c : Char} (h : c ≠ '%') (rest : Text) :
    renderFrom values out unresolved (c :: rest) =
      renderFrom values (out ++ [c]) unresolved rest := by
  have hsplit : splitOnce '%' (c :: rest) =
      (splitOnce '%' rest).map fun r => (c :: r.1, r.2) := by
    rw [splitOnce, if_neg h]
  cases hrest : splitOnce '%' rest with
  | none =>
    rw [hrest] at hsplit
    rw [renderFrom_none hsplit, renderFrom_none hrest, List.append_assoc]
    rfl
  | some parts =>
    obtain ⟨before, after⟩ := parts
    rw [hrest] at hsplit
    have hbefore : out ++ c :: before = out ++ [c] ++ before := by simp
    cases hclose : splitOnce '%' after with
    | none => rw [renderFrom_unpaired hsplit hclose, renderFrom_unpaired hrest hclose, hbefore]
    | some parts =>
      rw [renderFrom_paired hsplit hclose, renderFrom_paired hrest hclose, hbefore]

theorem renderFrom_sign {rest : Text} (h : ¬ Opens ('%' :: rest)) :
    renderFrom values out unresolved ('%' :: rest) =
      renderFrom values (out ++ ['%']) unresolved rest := by
  have hopen : splitOnce '%' ('%' :: rest) = some ([], rest) := by rw [splitOnce, if_pos rfl]
  cases hclose : splitOnce '%' rest with
  | none =>
    rw [renderFrom_unpaired hopen hclose, renderFrom_none hclose, List.append_nil,
      List.append_assoc]
    rfl
  | some parts =>
    obtain ⟨name, following⟩ := parts
    obtain ⟨heq, hsign⟩ := splitOnce_eq_some hclose
    have hname : ¬ isName name = true := fun hname =>
      h ⟨name, following, hname, hsign, congrArg (List.cons '%') heq⟩
    rw [renderFrom_paired hopen hclose, if_neg hname, List.append_nil]

theorem renderFrom_placeholder {name : Text} (hname : isName name = true) (hsign : '%' ∉ name)
    (following : Text) :
    renderFrom values out unresolved ('%' :: (name ++ '%' :: following)) =
      renderFrom values (out ++ (Piece.placeholder name).shown values)
        (((Piece.placeholder name).unbound values).toList.foldl noteOnce unresolved) following := by
  rw [renderFrom_paired (by rw [splitOnce, if_pos rfl]) (splitOnce_append hsign following),
    if_pos hname, List.append_nil]

theorem renderFrom_literal {text rest : Text}
    (h : ∀ before after, text = before ++ after → after ≠ [] → ¬ Opens (after ++ rest)) :
    renderFrom values out unresolved (text ++ rest) =
      renderFrom values (out ++ text) unresolved rest := by
  induction text generalizing out with
  | nil => rw [List.nil_append, List.append_nil]
  | cons c text ih =>
    have hstep : renderFrom values out unresolved (c :: (text ++ rest)) =
        renderFrom values (out ++ [c]) unresolved (text ++ rest) := by
      by_cases hc : c = '%'
      · subst hc
        exact renderFrom_sign (h [] ('%' :: text) rfl (List.cons_ne_nil _ _))
      · exact renderFrom_cons_of_ne hc _
    rw [List.cons_append, hstep, ih fun before after heq hafter =>
      h (c :: before) after (congrArg (List.cons c) heq) hafter, List.append_assoc]
    rfl

theorem renderFrom_leftmost {pieces : List Piece} (h : Leftmost pieces) :
    renderFrom values out unresolved (Piece.sources pieces) =
      (out ++ pieces.flatMap (Piece.shown values),
        (pieces.filterMap (Piece.unbound values)).foldl noteOnce unresolved) := by
  induction h generalizing out unresolved with
  | nil =>
    rw [List.flatMap_nil, List.append_nil]
    exact renderFrom_nil
  | @literal text pieces htext _ ih =>
    show renderFrom values out unresolved (text ++ Piece.sources pieces) = _
    rw [renderFrom_literal htext, ih, List.append_assoc]
    rfl
  | @placeholder name pieces hname hsign _ ih =>
    have hsource : Piece.sources (.placeholder name :: pieces) =
        '%' :: (name ++ '%' :: Piece.sources pieces) := by
      show '%' :: (name ++ ['%']) ++ Piece.sources pieces = _
      simp
    rw [hsource, renderFrom_placeholder hname hsign, ih, List.append_assoc, List.flatMap_cons,
      List.filterMap_cons]
    cases (Piece.placeholder name).unbound values <;> rfl

end Rendering

/-! ## Entries -/

/-- What the bindings resolve to, in their order. -/
def resolutions (map : EventMap) (event : EventNode) (bindings : List ValueBinding) :
    List (Text × Text) :=
  bindings.filterMap fun binding =>
    (resolve map event binding binding.compile).map fun translated => (binding.name, translated)

/-- The template has a placeholder of this name. -/
def names (template name : Text) : Bool := Parser.contains template ('%' :: (name ++ ['%']))

def ValueBinding.usedIn (template : Text) (binding : ValueBinding) : Bool :=
  names template binding.name

theorem contains_append (before needle after : Text) :
    Parser.contains (before ++ (needle ++ after)) needle = true := by
  apply List.any_eq_true.mpr
  refine ⟨needle ++ after, (List.mem_tails _ _).mpr ⟨before, rfl⟩, ?_⟩
  exact List.isPrefixOf_iff_prefix.mpr ⟨after, rfl⟩

theorem foldl_noteOnce {A : Type} [DecidableEq A] {seen noted : List A} (xs : List A)
    (h : ∀ a, a ∈ seen ↔ a ∈ noted) :
    xs.foldl noteOnce noted = noted ++ firstCopiesFrom id seen xs := by
  induction xs generalizing seen noted with
  | nil => exact (List.append_nil _).symm
  | cons x xs ih =>
    rw [List.foldl_cons, firstCopiesFrom, noteOnce]
    by_cases hx : x ∈ noted
    · rw [if_pos hx, if_pos (show id x ∈ seen from (h x).mpr hx), ih h]
    · have hseen : ∀ a, a ∈ id x :: seen ↔ a ∈ noted ++ [x] := by
        intro a
        rw [List.mem_cons, List.mem_append, List.mem_singleton, h, or_comm]
        rfl
      rw [if_neg hx, if_neg (show id x ∉ seen from fun hseen => hx ((h x).mp hseen)), ih hseen,
        List.append_assoc]
      rfl

/-- A template is rendered by its leftmost placeholders, whatever the values are. -/
theorem render_leftmost {template : Text} {pieces : List Piece} (h : Leftmost pieces)
    (hsource : Piece.sources pieces = template) (values : InsertionMap Text Text) :
    render template values =
      (pieces.flatMap (Piece.shown values),
        firstCopies id (pieces.filterMap (Piece.unbound values))) := by
  rw [render, ← hsource, renderFrom_leftmost h, foldl_noteOnce _ fun a => Iff.rfl]
  rfl

theorem render_congr {template : Text} {values values' : InsertionMap Text Text}
    (h : ∀ name, names template name = true → values.get? name = values'.get? name) :
    render template values = render template values' := by
  obtain ⟨pieces, hleft, hsource⟩ := exists_leftmost template
  have hget : ∀ name, .placeholder name ∈ pieces → values.get? name = values'.get? name := by
    intro name hmem
    apply h
    obtain ⟨before, after, rfl⟩ := List.append_of_mem hmem
    rw [← hsource, Piece.sources, List.flatMap_append, List.flatMap_cons]
    exact contains_append ..
  have hshown : ∀ piece ∈ pieces, piece.shown values = piece.shown values' := by
    intro piece hmem
    cases piece with
    | literal text => rfl
    | placeholder name => exact congrArg (fun value => Option.getD value _) (hget name hmem)
  have hunbound : ∀ piece ∈ pieces, piece.unbound values = piece.unbound values' := by
    intro piece hmem
    cases piece with
    | literal text => rfl
    | placeholder name =>
      exact congrArg (fun value => if Option.isSome value then none else some name) (hget name hmem)
  rw [render_leftmost hleft hsource, render_leftmost hleft hsource, List.flatMap_congr hshown,
    List.filterMap_congr hunbound]

theorem bindAll_eq (map : EventMap) (event : EventNode) (template : Text)
    (resolved : InsertionMap Text Text) (invalidPaths : List (Text × Text))
    (bindings : List ValueBinding) :
    bindAll map event template resolved invalidPaths
        (bindings.zip (bindings.map ValueBinding.compile)) =
      (resolved.setAll (resolutions map event (bindings.filter (ValueBinding.usedIn template))),
        (bindings.filter (ValueBinding.usedIn template)).foldl
          (fun invalidPaths binding => defects invalidPaths binding binding.compile)
          invalidPaths) := by
  induction bindings generalizing resolved invalidPaths with
  | nil => rfl
  | cons binding bindings ih =>
    rw [List.map_cons, List.zip_cons_cons, bindAll]
    by_cases hused : binding.usedIn template = true
    · rw [if_pos (show Parser.contains template binding.compile.placeholder = true from hused), ih,
        List.filter_cons_of_pos hused]
      refine Prod.ext ?_ rfl
      show _ = resolved.setAll (resolutions map event (binding :: _))
      rw [resolutions, resolutions, List.filterMap_cons]
      cases resolve map event binding binding.compile <;> rfl
    · rw [if_neg (show ¬ Parser.contains template binding.compile.placeholder = true from hused),
        ih, List.filter_cons_of_neg hused]

theorem lookup_filter {K V : Type} [DecidableEq K] {p : K → Bool} {k : K} (hk : p k = true)
    (entries : List (K × V)) :
    (entries.filter fun entry => p entry.1).lookup k = entries.lookup k := by
  induction entries with
  | nil => rfl
  | cons entry entries ih =>
    obtain ⟨name, value⟩ := entry
    rw [List.lookup_cons]
    by_cases hname : p name = true
    · rw [List.filter_cons_of_pos (by exact hname), List.lookup_cons, ih]
    · have hne : (k == name) = false := beq_false_of_ne fun heq => hname (heq ▸ hk)
      rw [List.filter_cons_of_neg (by exact hname), ih, hne]

theorem resolutions_used (map : EventMap) (event : EventNode) (template : Text)
    (bindings : List ValueBinding) :
    resolutions map event (bindings.filter (ValueBinding.usedIn template)) =
      (resolutions map event bindings).filter fun entry => names template entry.1 := by
  induction bindings with
  | nil => rfl
  | cons binding bindings ih =>
    have hcons : ∀ bindings, resolutions map event (binding :: bindings) =
        ((resolve map event binding binding.compile).map
          fun translated => (binding.name, translated)).toList ++
            resolutions map event bindings := by
      intro bindings
      rw [resolutions, List.filterMap_cons]
      cases resolve map event binding binding.compile <;> rfl
    rw [hcons, List.filter_append, ← ih]
    by_cases hused : binding.usedIn template = true
    · rw [List.filter_cons_of_pos hused, hcons]
      congr 1
      cases resolve map event binding binding.compile with
      | none => rfl
      | some translated =>
        exact (List.filter_cons_of_pos (p := fun entry : Text × Text => names template entry.1)
          (a := (binding.name, translated)) (l := []) hused).symm
    · rw [List.filter_cons_of_neg hused]
      cases resolve map event binding binding.compile with
      | none => rfl
      | some translated =>
        have hnone := List.filter_cons_of_neg
          (p := fun entry : Text × Text => names template entry.1)
          (a := (binding.name, translated)) (l := []) hused
        exact congrArg (· ++ resolutions map event _) hnone.symm

theorem applyEntry_eq (map : EventMap) (entry : MapEntry) (event : EventNode)
    (invalidPaths : List (Text × Text)) :
    (applyEntry map entry event invalidPaths).1 =
      { property   := entry.property
        text       := (render entry.template
          (InsertionMap.setAll ∅ (resolutions map event entry.bindings))).1
        unresolved := (render entry.template
          (InsertionMap.setAll ∅ (resolutions map event entry.bindings))).2 } := by
  have hrender : render entry.template (bindAll map event entry.template ∅ invalidPaths
        (entry.bindings.zip entry.compiled)).1 =
      render entry.template (InsertionMap.setAll ∅ (resolutions map event entry.bindings)) := by
    apply render_congr
    intro name hname
    have hbound := bindAll_eq map event entry.template ∅ invalidPaths entry.values
    show (bindAll _ _ _ _ _ (entry.values.zip (entry.values.map ValueBinding.compile))).1.get? _ =
      (InsertionMap.setAll ∅ (resolutions map event entry.values)).get? _
    rw [hbound, InsertionMap.get?_setAll, InsertionMap.get?_setAll, resolutions_used,
      InsertionMap.lastOf, InsertionMap.lastOf, ← List.filter_reverse,
      lookup_filter hname]
  rw [applyEntry]
  dsimp only
  rw [hrender]

/-! ## Maps -/

/-- The bindings that an entry uses and whose paths no one can read. -/
def MapEntry.malformed (entry : MapEntry) : List (Text × Text) :=
  (entry.bindings.filter fun binding =>
    binding.usedIn entry.template && binding.compile.path.isNone).map
      fun binding => (binding.name, binding.value)

theorem applyEntry_invalidPaths (map : EventMap) (entry : MapEntry) (event : EventNode)
    (invalidPaths : List (Text × Text)) :
    (applyEntry map entry event invalidPaths).2 = entry.malformed.foldl noteOnce invalidPaths := by
  show (bindAll _ _ _ _ _ (entry.values.zip (entry.values.map ValueBinding.compile))).2 = _
  rw [bindAll_eq, MapEntry.malformed, MapEntry.bindings]
  dsimp only
  induction entry.values generalizing invalidPaths with
  | nil => rfl
  | cons binding bindings ih =>
    by_cases hused : binding.usedIn entry.template = true
    · rw [List.filter_cons_of_pos hused, List.foldl_cons, ih, defects]
      cases hpath : binding.compile.path with
      | some path => rw [List.filter_cons_of_neg (by simp [hpath])]
      | none =>
        rw [List.filter_cons_of_pos (by simp [hpath, hused])]
        rfl
    · rw [List.filter_cons_of_neg hused, ih, List.filter_cons_of_neg (by simp [hused])]

theorem applyEntries_eq (map : EventMap) (event : EventNode) (result : MappedEvent)
    (entries : List MapEntry) :
    applyEntries map event result entries =
      { values       := result.values ++ entries.map fun entry => (applyEntry map entry event []).1
        invalidPaths :=
          (entries.flatMap MapEntry.malformed).foldl noteOnce result.invalidPaths } := by
  induction entries generalizing result with
  | nil =>
    rw [List.map_nil, List.append_nil]
    rfl
  | cons entry entries ih =>
    have hvalue : (applyEntry map entry event result.invalidPaths).1 =
        (applyEntry map entry event []).1 := by
      rw [applyEntry_eq, applyEntry_eq]
    rw [applyEntries, ih, applyEntry_invalidPaths, hvalue, List.map_cons, List.flatMap_cons,
      List.foldl_append, List.append_assoc]
    rfl

theorem applyMap_eq (map : EventMap) (event : EventNode) :
    applyMap map event =
      { values       := map.maps.map fun entry => (applyEntry map entry event []).1
        invalidPaths := firstCopies id (map.maps.flatMap MapEntry.malformed) } := by
  rw [applyMap, applyEntries_eq, foldl_noteOnce _ fun a => Iff.rfl]
  rfl

/-- The registry after maps have been loaded one after another. -/
def MapRegistry.load (maps : List EventMap) : MapRegistry :=
  maps.foldl (fun registry map => (registry.insert map).1) MapRegistry.new

def EventMap.key (map : EventMap) : MapKey := MapKey.new map.channel map.provider map.eventId

theorem find_load (maps : List EventMap) (channel provider : Text) (eventId : Nat) :
    (MapRegistry.load maps).find channel provider eventId =
      maps.reverse.find? fun map => map.key == MapKey.new channel provider eventId := by
  have hfold : ∀ (maps : List EventMap) (registry : MapRegistry),
      (maps.foldl (fun registry map => (registry.insert map).1) registry).maps =
        registry.maps.setAll (maps.map fun map => (map.key, map)) := by
    intro maps
    induction maps with
    | nil => exact fun registry => rfl
    | cons map maps ih => exact fun registry => ih _
  have hlookup : ∀ maps : List EventMap, (maps.map fun map => (map.key, map)).lookup
      (MapKey.new channel provider eventId) =
        maps.find? fun map => map.key == MapKey.new channel provider eventId := by
    intro maps
    induction maps with
    | nil => rfl
    | cons map maps ih =>
      rw [List.map_cons, List.lookup_cons, ih, List.find?_cons, BEq.comm]
  rw [MapRegistry.find, MapRegistry.load, hfold, InsertionMap.get?_setAll, InsertionMap.lastOf,
    ← List.map_reverse, hlookup]
  exact Option.or_none

/-- The columns of an event are those of the map that was loaded last for its kind, and what
is reported of that map does not depend on the event. -/
theorem apply_load (maps : List EventMap) (channel provider : Text) (eventId : Nat)
    (event : EventNode) :
    (MapRegistry.load maps).apply channel provider eventId event =
      (maps.reverse.find? fun map => map.key == MapKey.new channel provider eventId).map
        fun map =>
          { values       := map.maps.map fun entry => (applyEntry map entry event []).1
            invalidPaths := firstCopies id (map.maps.flatMap MapEntry.malformed) } := by
  rw [MapRegistry.apply, find_load]
  congr 1
  funext map
  exact applyMap_eq map event

/-- A template has leftmost placeholders; each shows the last value that the bindings give its
name, or stays, and is then reported once, in order. -/
theorem applyEntry_text (map : EventMap) (entry : MapEntry) (event : EventNode)
    (invalidPaths : List (Text × Text)) :
    (∃ pieces, Leftmost pieces ∧ Piece.sources pieces = entry.template) ∧
      ∀ pieces, Leftmost pieces → Piece.sources pieces = entry.template →
        let values := InsertionMap.setAll ∅ (resolutions map event entry.bindings)
        (applyEntry map entry event invalidPaths).1 =
          { property   := entry.property
            text       := pieces.flatMap (Piece.shown values)
            unresolved := firstCopies id (pieces.filterMap (Piece.unbound values)) } := by
  refine ⟨exists_leftmost entry.template, fun pieces hleft hsource => ?_⟩
  dsimp only
  rw [applyEntry_eq, render_leftmost hleft hsource]

end EventMaps
end CmTrace
