import CmTrace.Collections.InsertionMap
import CmTrace.LogStore.AggregateRuns

/-!
# Names of policies

Some messages list policies with their ids and names.  The names of a list of
entries are gathered in one map, where the last name of an id stays; new entries
are added to a map that is there without changing a name in it.
-/

namespace CmTrace
namespace LogStore

open Collections Js

inductive Json where
  | null
  | bool (value : Bool)
  | number (text : JsString)
  | string (value : JsString)
  | array (items : List Json)
  | object (fields : List (JsString × Json))

/-- The property of a value that is not null; only an object has those that are asked for. -/
def Json.property (name : JsString) : Json → Option Json
  | object fields => fields.reverse.lookup name
  | _ => none

abbrev NameMap := InsertionMap JsString JsString

def getPoliciesPrefix : JsString := js "Get policies = "

def validEscapes : List UInt16 := "\"\\/bfnrtu".toList.map unit

/-- The text with a second backslash before what is no escape. -/
def sanitizeJson : JsString → JsString
  | [] => []
  | [u] => [u]
  | u :: v :: rest =>
    if u = unit '\\' then
      if v ∈ validEscapes then u :: v :: sanitizeJson rest
      else unit '\\' :: unit '\\' :: sanitizeJson (v :: rest)
    else u :: sanitizeJson (v :: rest)

/-- A name set in a map; the name of the prototype is not one of its own. -/
def assign (map : NameMap) (id name : JsString) : NameMap :=
  if id = js "__proto__" then map else map.set id name

def spread (additions existing : NameMap) : NameMap :=
  additions.setAll existing.entries

section Names

variable (parse : JsString → Option Json) (toLowerCase : JsString → JsString)

def tryParseArray (jsonStr : JsString) : Option (List Json) :=
  match parse jsonStr with
  | some (.array items) => some items
  | some _ => none
  | none =>
    match parse (sanitizeJson jsonStr) with
    | some (.array items) => some items
    | _ => none

/-- Take the name of an item; there is no property of null to ask for. -/
def addItem (map : NameMap) : Json → Option NameMap
  | .null => none
  | item =>
    match item.property (js "Id"), item.property (js "Name") with
    | some (.string id), some (.string name) =>
      some (if name = [] then map else assign map (toLowerCase id) name)
    | _, _ => some map

def addMessage (map : NameMap) (message : JsString) : Option NameMap :=
  if !getPoliciesPrefix.isPrefixOf message then some map
  else match tryParseArray parse (message.drop getPoliciesPrefix.length) with
    | none => some map
    | some items => items.foldlM (addItem toLowerCase) map

/-- The names of some entries; there is no result when an item is null. -/
def buildGuidNameMap (entries : List LogEntry) : Option NameMap :=
  entries.foldlM (fun map entry => addMessage parse toLowerCase map entry.message) ∅

def mergeGuidNameMap (existing : NameMap) (newEntries : List LogEntry) : Option NameMap := do
  let additions ← buildGuidNameMap parse toLowerCase newEntries
  if additions.entries = [] then some existing else some (spread additions existing)

/-! ## What the maps say -/

/-- The name an item gives to an id, if it gives one. -/
def itemNames : Json → Option (List (JsString × JsString))
  | .null => none
  | item =>
    match item.property (js "Id"), item.property (js "Name") with
    | some (.string id), some (.string name) =>
      some (if name = [] ∨ toLowerCase id = js "__proto__" then [] else [(toLowerCase id, name)])
    | _, _ => some []

def messageNames (message : JsString) : Option (List (JsString × JsString)) :=
  if !getPoliciesPrefix.isPrefixOf message then some []
  else match tryParseArray parse (message.drop getPoliciesPrefix.length) with
    | none => some []
    | some items => (items.mapM (itemNames toLowerCase)).map List.flatten

def Gives (messages : List JsString) (id name : JsString) : Prop :=
  ∃ message ∈ messages, ∃ names, messageNames parse toLowerCase message = some names ∧
    (id, name) ∈ names

/-- No message has an item that cannot be looked at. -/
def Readable (messages : List JsString) : Prop :=
  ∀ message ∈ messages, (messageNames parse toLowerCase message).isSome

/-- What a map says is what the messages say. -/
structure NamesOf (messages : List JsString) (map : NameMap) : Prop where
  readable : Readable parse toLowerCase messages
  given : ∀ id name, map.get? id = some name → Gives parse toLowerCase messages id name
  present : ∀ id name, Gives parse toLowerCase messages id name → (map.get? id).isSome

/-! ### Names as they are set -/

section Spec

variable {parse : JsString → Option Json} {toLowerCase : JsString → JsString}

theorem foldlM_setAll {A : Type} {f : NameMap → A → Option NameMap}
    {names : A → Option (List (JsString × JsString))}
    (h : ∀ map x, f map x = (names x).map map.setAll) (xs : List A) (map : NameMap) :
    xs.foldlM f map = ((xs.mapM names).map List.flatten).map map.setAll := by
  induction xs generalizing map with
  | nil => rfl
  | cons x xs ih =>
    rw [List.foldlM_cons, h, List.mapM_cons]
    cases names x with
    | none => rfl
    | some first =>
      show xs.foldlM f (map.setAll first) = _
      rw [ih]
      cases xs.mapM names with
      | none => rfl
      | some rest =>
        show some _ = some _
        rw [List.flatten_cons, InsertionMap.setAll, InsertionMap.setAll, InsertionMap.setAll,
          List.foldl_append]

theorem addItem_eq (map : NameMap) (item : Json) :
    addItem toLowerCase map item = (itemNames toLowerCase item).map map.setAll := by
  have hset : ∀ (id name : JsString),
      (if name = [] then map else assign map (toLowerCase id) name) =
      map.setAll (if name = [] ∨ toLowerCase id = js "__proto__" then []
        else [(toLowerCase id, name)]) := by
    intro id name
    by_cases hname : name = []
    · rw [if_pos hname, if_pos (.inl hname)]
      rfl
    · rw [if_neg hname, assign]
      by_cases hproto : toLowerCase id = js "__proto__"
      · rw [if_pos hproto, if_pos (.inr hproto)]
        rfl
      · rw [if_neg hproto, if_neg (not_or.mpr ⟨hname, hproto⟩)]
        rfl
  cases item with
  | null => rfl
  | _ =>
    rw [addItem, itemNames]
    · split
      · rw [hset]
        rfl
      · rfl
    all_goals exact fun h => nomatch h

theorem addMessage_eq (map : NameMap) (message : JsString) :
    addMessage parse toLowerCase map message =
      (messageNames parse toLowerCase message).map map.setAll := by
  rw [addMessage, messageNames]
  split_ifs
  · rfl
  · cases tryParseArray parse (message.drop getPoliciesPrefix.length) with
    | none => rfl
    | some items => exact foldlM_setAll addItem_eq items map

theorem buildGuidNameMap_eq (entries : List LogEntry) :
    buildGuidNameMap parse toLowerCase entries =
      ((entries.mapM fun entry => messageNames parse toLowerCase entry.message).map
        List.flatten).map (InsertionMap.setAll ∅) :=
  foldlM_setAll (fun map entry => addMessage_eq map entry.message) entries ∅

theorem mapM_eq_some {A B : Type} {f : A → Option B} {xs : List A} {ys : List B}
    (h : xs.mapM f = some ys) : ∀ x ∈ xs, ∃ y ∈ ys, f x = some y := by
  induction xs generalizing ys with
  | nil => exact fun x hx => absurd hx List.not_mem_nil
  | cons x xs ih =>
    rw [List.mapM_cons] at h
    obtain ⟨y, hy, h⟩ := Option.bind_eq_some_iff.mp h
    obtain ⟨ys', hys, h⟩ := Option.bind_eq_some_iff.mp h
    obtain rfl := Option.some.inj h
    rw [List.forall_mem_cons]
    refine ⟨⟨y, List.mem_cons_self, hy⟩, fun x' hx' => ?_⟩
    obtain ⟨y', hy', heq⟩ := ih hys x' hx'
    exact ⟨y', List.mem_cons_of_mem y hy', heq⟩

theorem mapM_gives {A B : Type} {f : A → Option B} {xs : List A} {ys : List B}
    (h : xs.mapM f = some ys) : ∀ y ∈ ys, ∃ x ∈ xs, f x = some y := by
  induction xs generalizing ys with
  | nil =>
    obtain rfl := Option.some.inj h
    exact fun y hy => absurd hy List.not_mem_nil
  | cons x xs ih =>
    rw [List.mapM_cons] at h
    obtain ⟨y, hy, h⟩ := Option.bind_eq_some_iff.mp h
    obtain ⟨ys', hys, h⟩ := Option.bind_eq_some_iff.mp h
    obtain rfl := Option.some.inj h
    rw [List.forall_mem_cons]
    refine ⟨⟨x, List.mem_cons_self, hy⟩, fun y' hy' => ?_⟩
    obtain ⟨x', hx', heq⟩ := ih hys y' hy'
    exact ⟨x', List.mem_cons_of_mem x hx', heq⟩

theorem isSome_mapM {A B : Type} {f : A → Option B} {xs : List A}
    (h : ∀ x ∈ xs, (f x).isSome) : (xs.mapM f).isSome := by
  induction xs with
  | nil => rfl
  | cons x xs ih =>
    rw [List.forall_mem_cons] at h
    obtain ⟨y, hy⟩ := Option.isSome_iff_exists.mp h.1
    obtain ⟨ys, hys⟩ := Option.isSome_iff_exists.mp (ih h.2)
    rw [List.mapM_cons, hy, hys]
    rfl

theorem buildGuidNameMap_names {entries : List LogEntry} {map : NameMap}
    (h : buildGuidNameMap parse toLowerCase entries = some map) :
    NamesOf parse toLowerCase (entries.map (·.message)) map := by
  rw [buildGuidNameMap_eq] at h
  obtain ⟨names, hnames, rfl⟩ := Option.map_eq_some_iff.mp h
  obtain ⟨lists, hlists, rfl⟩ := Option.map_eq_some_iff.mp hnames
  have hget : ∀ id, (InsertionMap.setAll ∅ lists.flatten).get? id =
      InsertionMap.lastOf lists.flatten id := by
    intro id
    rw [InsertionMap.get?_setAll, InsertionMap.get?_empty, Option.or_none]
  refine ⟨?_, fun id name hname => ?_, fun id name hgives => ?_⟩
  · intro message hmessage
    obtain ⟨entry, hentry, rfl⟩ := List.mem_map.mp hmessage
    obtain ⟨list, -, hlist⟩ := mapM_eq_some hlists entry hentry
    rw [hlist]
    rfl
  · rw [hget] at hname
    obtain ⟨list, hlist, hmem⟩ := List.mem_flatten.mp (InsertionMap.mem_of_lastOf hname)
    obtain ⟨entry, hentry, heq⟩ := mapM_gives hlists list hlist
    exact ⟨entry.message, List.mem_map.mpr ⟨entry, hentry, rfl⟩, list, heq, hmem⟩
  · obtain ⟨message, hmessage, list, hlist, hmem⟩ := hgives
    obtain ⟨entry, hentry, rfl⟩ := List.mem_map.mp hmessage
    obtain ⟨list', hlist', heq⟩ := mapM_eq_some hlists entry hentry
    obtain rfl := Option.some.inj (hlist.symm.trans heq)
    rw [hget]
    exact InsertionMap.isSome_lastOf (List.mem_flatten.mpr ⟨list, hlist', hmem⟩)

theorem isSome_buildGuidNameMap {entries : List LogEntry}
    (h : Readable parse toLowerCase (entries.map (·.message))) :
    ∃ map, buildGuidNameMap parse toLowerCase entries = some map := by
  rw [buildGuidNameMap_eq]
  have hsome := isSome_mapM fun entry hentry =>
    h entry.message (List.mem_map.mpr ⟨entry, hentry, rfl⟩)
  obtain ⟨lists, hlists⟩ := Option.isSome_iff_exists.mp hsome
  rw [hlists]
  exact ⟨_, rfl⟩

theorem mergeGuidNameMap_spec {existing map : NameMap} {newEntries : List LogEntry}
    (h : mergeGuidNameMap parse toLowerCase existing newEntries = some map) :
    ∃ additions, buildGuidNameMap parse toLowerCase newEntries = some additions ∧
      ∀ id, map.get? id = (existing.get? id).or (additions.get? id) := by
  obtain ⟨additions, hadditions, h⟩ := Option.bind_eq_some_iff.mp h
  refine ⟨additions, hadditions, fun id => ?_⟩
  split_ifs at h with hempty
  · obtain rfl := Option.some.inj h
    rw [InsertionMap.get?.eq_def additions, hempty]
    exact Option.or_none.symm
  · obtain rfl := Option.some.inj h
    exact InsertionMap.get?_setAll_entries additions existing id

end Spec

end Names

end LogStore
end CmTrace
