import CmTrace.LogStore.GuidNames

/-!
# The names of a list that changes

The map of names beside the entries of the store.  A reset and an amendment of the
single view gather the names anew; what is appended, and an amendment of the merged
view, only add names, and those that are there stay.
-/

namespace CmTrace
namespace LogStore

open Collections Js

section Single

variable (find : Option (LogEntry → Bool))

def appendEntries (newEntries : List LogEntry) (state : LogState) : LogState :=
  recomputeAndSetMatches find
    { state with
      entries    := state.entries ++ newEntries
      totalLines := state.totalLines + newEntries.length }

def takesById (amendment : TailEntryAmendment) (entry : LogEntry) : Bool :=
  decide (entry.id = amendment.entryId) && canApplyTailAmendment entry amendment

def amendEntry (amendment : TailEntryAmendment) (state : LogState) : LogState :=
  if !state.entries.any (takesById amendment) then state
  else recomputeAndSetMatches find
    { state with
      entries    := amendFirst (takesById amendment) amendment state.entries
      totalLines := max state.totalLines amendment.continuationEndLine }

def resetEntries (newEntries : List LogEntry) (state : LogState) : LogState :=
  recomputeAndSetMatches find
    { state with
      entries    := newEntries
      totalLines := newEntries.length
      selectedId := state.selectedId.filter fun id => newEntries.any fun entry => entry.id = id }

end Single

/-- The store with the names of its policies. -/
structure GuidState where
  view : LogState := {}
  guidNameMap : NameMap := ∅

inductive StoreOp where
  | append (newEntries : List LogEntry)
  | amend (amendment : TailEntryAmendment)
  | reset (newEntries : List LogEntry)
  | aggregate (op : AggregateOp)

def GuidState.messages (state : GuidState) : List JsString := state.view.entries.map (·.message)

section Operations

variable (parse : JsString → Option Json) (toLowerCase : JsString → JsString)
  (localeCompare : JsString → JsString → Ordering) (find : Option (LogEntry → Bool))

def GuidState.step? (state : GuidState) : StoreOp → Option GuidState
  | .append newEntries => do
    let guidNameMap ← mergeGuidNameMap parse toLowerCase state.guidNameMap newEntries
    some { view := appendEntries find newEntries state.view, guidNameMap }
  | .amend amendment =>
    if !state.view.entries.any (takesById amendment) then some state
    else do
      let view := amendEntry find amendment state.view
      let guidNameMap ← buildGuidNameMap parse toLowerCase view.entries
      some { view, guidNameMap }
  | .reset newEntries => do
    let guidNameMap ← buildGuidNameMap parse toLowerCase newEntries
    some { view := resetEntries find newEntries state.view, guidNameMap }
  | .aggregate op@(.append filePath newEntries) =>
    let view := state.view.step localeCompare find op
    if !isListed state.view filePath then some { view, guidNameMap := state.guidNameMap }
    else do
      let guidNameMap ← mergeGuidNameMap parse toLowerCase state.guidNameMap newEntries
      some { view, guidNameMap }
  | .aggregate op@(.amend filePath amendment) =>
    match state.view.entries.find? (takesAmendment filePath amendment) with
    | none => some state
    | some entry => do
      let amendedEntry := applyTailAmendment entry amendment
      let guidNameMap ← mergeGuidNameMap parse toLowerCase state.guidNameMap [amendedEntry]
      some { view := state.view.step localeCompare find op, guidNameMap }
  | .aggregate op@(.reset _ _) => do
    let view := state.view.step localeCompare find op
    let guidNameMap ← buildGuidNameMap parse toLowerCase view.entries
    some { view, guidNameMap }

def GuidState.step (state : GuidState) (op : StoreOp) : GuidState :=
  (state.step? parse toLowerCase localeCompare find op).getD state

def GuidState.run (state : GuidState) (ops : List StoreOp) : GuidState :=
  ops.foldl (GuidState.step parse toLowerCase localeCompare find) state

def GuidState.rebuilds (state : GuidState) : StoreOp → Bool
  | .append _ => false
  | .amend amendment => state.view.entries.any (takesById amendment)
  | .reset _ => true
  | .aggregate (.append _ _) => false
  | .aggregate (.amend _ _) => false
  | .aggregate (.reset _ _) => true

def GuidState.InSync (state : GuidState) : Prop :=
  ∃ map, buildGuidNameMap parse toLowerCase state.view.entries = some map ∧
    ∀ id, state.guidNameMap.get? id = map.get? id

/-- An amendment of the merged view leaves its entry the ids that it names. -/
def GuidState.KeepsNames (state : GuidState) : StoreOp → Prop
  | .aggregate (.amend filePath amendment) =>
    ∀ entry, state.view.entries.find? (takesAmendment filePath amendment) = some entry →
      ∀ id name, Gives parse toLowerCase [entry.message] id name →
        ∃ name', Gives parse toLowerCase [(applyTailAmendment entry amendment).message] id name'
  | _ => True

/-- Along a run every id has one name, and no amendment of the merged view takes one. -/
def GuidState.Consistent (nameOf : JsString → JsString) : GuidState → List StoreOp → Prop
  | state, [] => ∀ id name, Gives parse toLowerCase state.messages id name → name = nameOf id
  | state, op :: ops =>
    (∀ id name, Gives parse toLowerCase state.messages id name → name = nameOf id) ∧
      state.KeepsNames parse toLowerCase op ∧
      Consistent nameOf (state.step parse toLowerCase localeCompare find op) ops

end Operations

/-! ## The messages after an operation -/

theorem amendFirst_split {takes : LogEntry → Bool} {entries : List LogEntry} {entry : LogEntry}
    (h : entries.find? takes = some entry) (amendment : TailEntryAmendment) :
    ∃ before after, entries = before ++ entry :: after ∧
      amendFirst takes amendment entries =
        before ++ applyTailAmendment entry amendment :: after := by
  induction entries with
  | nil => cases h
  | cons first entries ih =>
    rw [amendFirst]
    by_cases htakes : takes first = true
    · rw [List.find?_cons_of_pos htakes] at h
      obtain rfl := Option.some.inj h
      exact ⟨[], entries, rfl, if_pos htakes⟩
    · rw [List.find?_cons_of_neg htakes] at h
      obtain ⟨before, after, rfl, heq⟩ := ih h
      exact ⟨first :: before, after, rfl, by rw [if_neg htakes, heq]; rfl⟩

theorem messages_withIds (filePath : JsString) (first : Int) (entries : List LogEntry) :
    (withIds filePath first entries).map (·.message) = entries.map (·.message) := by
  refine List.ext_getElem (by simp [withIds]) fun i h h' => ?_
  simp [withIds]

section Steps

variable {parse : JsString → Option Json} {toLowerCase : JsString → JsString}
  {localeCompare : JsString → JsString → Ordering} {find : Option (LogEntry → Bool)}
  {state state' : GuidState} {op : StoreOp}

/-- What an operation that does not gather all names anew does: it adds the names of
some entries, and no other messages come. -/
structure Adds (parse : JsString → Option Json) (toLowerCase : JsString → JsString)
    (state state' : GuidState) (op : StoreOp) (added : List LogEntry) : Prop where
  merged : mergeGuidNameMap parse toLowerCase state.guidNameMap added = some state'.guidNameMap
  come : ∀ message ∈ state'.messages,
    message ∈ state.messages ∨ message ∈ added.map (·.message)
  there : ∀ message ∈ added.map (·.message), message ∈ state'.messages
  stay : ∀ message ∈ state.messages, message ∈ state'.messages ∨
    ∃ filePath amendment entry, op = .aggregate (.amend filePath amendment) ∧
      state.view.entries.find? (takesAmendment filePath amendment) = some entry ∧
      message = entry.message ∧ added = [applyTailAmendment entry amendment]

theorem adds_nothing (hmap : state'.guidNameMap = state.guidNameMap)
    (hmessages : state'.messages = state.messages) :
    Adds parse toLowerCase state state' op [] := by
  refine ⟨?_, fun message hm => .inl (hmessages ▸ hm), fun message hm => ?_,
    fun message hm => .inl (hmessages.symm ▸ hm)⟩
  · rw [hmap]
    rfl
  · exact absurd hm List.not_mem_nil

theorem adds_entries {newEntries : List LogEntry}
    (hmerge : mergeGuidNameMap parse toLowerCase state.guidNameMap newEntries =
      some state'.guidNameMap)
    (hmessages : state'.messages.Perm (state.messages ++ newEntries.map (·.message))) :
    Adds parse toLowerCase state state' op newEntries := by
  have hmem : ∀ message, message ∈ state'.messages ↔
      message ∈ state.messages ∨ message ∈ newEntries.map (·.message) := fun message =>
    hmessages.mem_iff.trans List.mem_append
  exact ⟨hmerge, fun message => (hmem message).mp, fun message h => (hmem message).mpr (.inr h),
    fun message h => .inl ((hmem message).mpr (.inl h))⟩

theorem step?_cases (h : state.step? parse toLowerCase localeCompare find op = some state') :
    (state.rebuilds op = true ∧
        buildGuidNameMap parse toLowerCase state'.view.entries = some state'.guidNameMap) ∨
      state.rebuilds op = false ∧ ∃ added, Adds parse toLowerCase state state' op added := by
  cases op with
  | append newEntries =>
    obtain ⟨map, hmap, h⟩ := Option.bind_eq_some_iff.mp h
    obtain rfl := Option.some.inj h
    refine .inr ⟨rfl, newEntries, adds_entries hmap ?_⟩
    rw [GuidState.messages, GuidState.messages, appendEntries, recompute_entries, List.map_append]
  | amend amendment =>
    rw [GuidState.step?, GuidState.rebuilds] at *
    cases htakes : state.view.entries.any (takesById amendment) with
    | false =>
      rw [htakes] at h
      obtain rfl := Option.some.inj h
      exact .inr ⟨rfl, [], adds_nothing rfl rfl⟩
    | true =>
      rw [htakes] at h
      obtain ⟨map, hmap, h⟩ := Option.bind_eq_some_iff.mp h
      obtain rfl := Option.some.inj h
      exact .inl ⟨rfl, hmap⟩
  | reset newEntries =>
    obtain ⟨map, hmap, h⟩ := Option.bind_eq_some_iff.mp h
    obtain rfl := Option.some.inj h
    refine .inl ⟨rfl, ?_⟩
    rw [resetEntries, recompute_entries]
    exact hmap
  | aggregate op =>
    cases op with
    | append filePath newEntries =>
      rw [GuidState.step?] at h
      have hentries := append_entries localeCompare find filePath newEntries state.view
      cases hlisted : isListed state.view filePath with
      | false =>
        rw [hlisted] at h hentries
        obtain rfl := Option.some.inj h
        refine .inr ⟨rfl, [], adds_nothing rfl ?_⟩
        exact congrArg (List.map (·.message)) hentries
      | true =>
        rw [hlisted] at h hentries
        obtain ⟨map, hmap, h⟩ := Option.bind_eq_some_iff.mp h
        obtain rfl := Option.some.inj h
        refine .inr ⟨rfl, newEntries, adds_entries hmap ?_⟩
        have hperm := (mergeEntries_perm localeCompare state.view (state.view.entries ++
          withIds filePath (nextId state.view.entries) newEntries)).map (·.message)
        rw [List.map_append, messages_withIds] at hperm
        exact (List.Perm.of_eq (congrArg (List.map (·.message)) hentries)).trans hperm
    | amend filePath amendment =>
      rw [GuidState.step?] at h
      cases hfind : state.view.entries.find? (takesAmendment filePath amendment) with
      | none =>
        rw [hfind] at h
        obtain rfl := Option.some.inj h
        exact .inr ⟨rfl, [], adds_nothing rfl rfl⟩
      | some entry =>
        rw [hfind] at h
        obtain ⟨map, hmap, h⟩ := Option.bind_eq_some_iff.mp h
        obtain rfl := Option.some.inj h
        obtain ⟨before, after, hentries, hamended⟩ := amendFirst_split hfind amendment
        have hany : state.view.entries.any (takesAmendment filePath amendment) = true := by
          rw [← List.isSome_find?, hfind]
          rfl
        have hview : (state.view.step localeCompare find (.amend filePath amendment)).entries =
            before ++ applyTailAmendment entry amendment :: after := by
          rw [LogState.step, amendAggregateEntry, hany, ← hamended]
          exact recompute_entries find _
        refine .inr ⟨rfl, _, hmap, ?_, ?_, ?_⟩
        · intro message hm
          rw [GuidState.messages, hview] at hm
          rw [GuidState.messages, hentries]
          simp only [List.map_append, List.map_cons, List.mem_append, List.mem_cons] at hm ⊢
          rcases hm with hm | rfl | hm
          · exact .inl (.inl hm)
          · exact .inr (.inl rfl)
          · exact .inl (.inr (.inr hm))
        · intro message hm
          rw [GuidState.messages, hview]
          rw [List.map_cons, List.map_nil, List.mem_singleton] at hm
          rw [hm, List.map_append, List.map_cons]
          exact List.mem_append_right _ List.mem_cons_self
        · intro message hm
          rw [GuidState.messages, hentries] at hm
          rw [GuidState.messages, hview]
          simp only [List.map_append, List.map_cons, List.mem_append, List.mem_cons] at hm ⊢
          rcases hm with hm | rfl | hm
          · exact .inl (.inl hm)
          · exact .inr ⟨filePath, amendment, entry, rfl, hfind, rfl, rfl⟩
          · exact .inl (.inr (.inr hm))
    | reset filePath newEntries =>
      obtain ⟨map, hmap, h⟩ := Option.bind_eq_some_iff.mp h
      obtain rfl := Option.some.inj h
      exact .inl ⟨rfl, hmap⟩

/-! ## The map along a run -/

/-- The map has all ids that the messages name. -/
structure Covers (parse : JsString → Option Json) (toLowerCase : JsString → JsString)
    (state : GuidState) : Prop where
  readable : Readable parse toLowerCase state.messages
  present : ∀ id name, Gives parse toLowerCase state.messages id name →
    (state.guidNameMap.get? id).isSome

def Stated (parse : JsString → Option Json) (toLowerCase : JsString → JsString)
    (state : GuidState) : Prop :=
  ∀ id name, state.guidNameMap.get? id = some name →
    Gives parse toLowerCase state.messages id name

theorem inSync_of_build {map : NameMap}
    (h : buildGuidNameMap parse toLowerCase state.view.entries = some map)
    (hmap : state.guidNameMap = map) : state.InSync parse toLowerCase :=
  ⟨map, h, fun id => by rw [hmap]⟩

theorem covers_of_inSync (h : state.InSync parse toLowerCase) :
    Covers parse toLowerCase state ∧ Stated parse toLowerCase state := by
  obtain ⟨map, hbuild, hget⟩ := h
  have hnames := buildGuidNameMap_names hbuild
  refine ⟨⟨hnames.readable, fun id name hgives => ?_⟩, fun id name hname => ?_⟩
  · rw [hget]
    exact hnames.present id name hgives
  · rw [hget] at hname
    exact hnames.given id name hname

theorem inSync_of_covers (hcovers : Covers parse toLowerCase state)
    (hstated : Stated parse toLowerCase state) {nameOf : JsString → JsString}
    (hone : ∀ id name, Gives parse toLowerCase state.messages id name → name = nameOf id) :
    state.InSync parse toLowerCase := by
  obtain ⟨map, hbuild⟩ := isSome_buildGuidNameMap hcovers.readable
  have hnames := buildGuidNameMap_names hbuild
  refine ⟨map, hbuild, fun id => ?_⟩
  cases hmap : map.get? id with
  | some name =>
    have hgives := hnames.given id name hmap
    obtain ⟨name', hname'⟩ := Option.isSome_iff_exists.mp (hcovers.present id name hgives)
    rw [hname', hone id name hgives, hone id name' (hstated id name' hname')]
  | none =>
    cases hstate : state.guidNameMap.get? id with
    | none => rfl
    | some name =>
      have hsome := hnames.present id name (hstated id name hstate)
      rw [hmap] at hsome
      cases hsome

theorem covers_step (h : state.step? parse toLowerCase localeCompare find op = some state')
    (hcovers : Covers parse toLowerCase state) : Covers parse toLowerCase state' := by
  rcases step?_cases h with ⟨-, hbuild⟩ | ⟨-, added, hadds⟩
  · exact (covers_of_inSync (inSync_of_build hbuild rfl)).1
  · obtain ⟨additions, hadditions, hget⟩ := mergeGuidNameMap_spec hadds.merged
    have hnames := buildGuidNameMap_names hadditions
    refine ⟨fun message hm => ?_, fun id name hgives => ?_⟩
    · exact (hadds.come message hm).elim (hcovers.readable message) (hnames.readable message)
    · obtain ⟨message, hm, names, hmessage, hname⟩ := hgives
      rw [hget, Option.isSome_or, Bool.or_eq_true]
      refine (hadds.come message hm).imp (fun hm => ?_) fun hm => ?_
      · exact hcovers.present id name ⟨message, hm, names, hmessage, hname⟩
      · exact hnames.present id name ⟨message, hm, names, hmessage, hname⟩

theorem given_step (h : state.step? parse toLowerCase localeCompare find op = some state')
    {id name : JsString} (hname : state'.guidNameMap.get? id = some name) :
    state.guidNameMap.get? id = some name ∨ Gives parse toLowerCase state'.messages id name := by
  rcases step?_cases h with ⟨-, hbuild⟩ | ⟨-, added, hadds⟩
  · exact .inr ((buildGuidNameMap_names hbuild).given id name hname)
  · obtain ⟨additions, hadditions, hget⟩ := mergeGuidNameMap_spec hadds.merged
    rw [hget] at hname
    rcases Option.or_eq_some_iff.mp hname with hold | ⟨-, hnew⟩
    · exact .inl hold
    · obtain ⟨message, hm, hrest⟩ := (buildGuidNameMap_names hadditions).given id name hnew
      exact .inr ⟨message, hadds.there message hm, hrest⟩

theorem stated_step (h : state.step? parse toLowerCase localeCompare find op = some state')
    (hstated : Stated parse toLowerCase state) (hkeeps : state.KeepsNames parse toLowerCase op)
    {nameOf : JsString → JsString}
    (hone : ∀ id name, Gives parse toLowerCase state.messages id name → name = nameOf id)
    (hone' : ∀ id name, Gives parse toLowerCase state'.messages id name → name = nameOf id) :
    Stated parse toLowerCase state' := by
  intro id name hname
  rcases step?_cases h with ⟨-, hbuild⟩ | ⟨-, added, hadds⟩
  · exact (buildGuidNameMap_names hbuild).given id name hname
  · rcases given_step h hname with hold | hgives
    · have hgives := hstated id name hold
      obtain ⟨message, hm, names, hmessage, hmem⟩ := hgives
      rcases hadds.stay message hm with hm' | ⟨filePath, amendment, entry, rfl, hfind, rfl, rfl⟩
      · exact ⟨message, hm', names, hmessage, hmem⟩
      · -- the amended message still names the id, and there is one name for it
        obtain ⟨name', message', hm', hrest⟩ := hkeeps entry hfind id name
          ⟨entry.message, List.mem_singleton_self _, names, hmessage, hmem⟩
        have hgives' : Gives parse toLowerCase state'.messages id name' :=
          ⟨message', hadds.there message' hm', hrest⟩
        rw [hone id name (hstated id name hold), ← hone' id name' hgives']
        exact hgives'
    · exact hgives

theorem step_eq_or (state : GuidState) (op : StoreOp) :
    state.step parse toLowerCase localeCompare find op = state ∨
      state.step? parse toLowerCase localeCompare find op =
        some (state.step parse toLowerCase localeCompare find op) := by
  rw [GuidState.step]
  cases h : state.step? parse toLowerCase localeCompare find op with
  | none => exact .inl rfl
  | some state' => exact .inr rfl

theorem covers_run (h : Covers parse toLowerCase state) (ops : List StoreOp) :
    Covers parse toLowerCase (state.run parse toLowerCase localeCompare find ops) := by
  induction ops generalizing state with
  | nil => exact h
  | cons op ops ih =>
    refine ih ?_
    rcases step_eq_or state op with heq | hstep
    · rw [heq]
      exact h
    · exact covers_step hstep h

theorem inSync_run {nameOf : JsString → JsString} {ops : List StoreOp}
    (hcovers : Covers parse toLowerCase state) (hstated : Stated parse toLowerCase state)
    (h : state.Consistent parse toLowerCase localeCompare find nameOf ops) :
    (state.run parse toLowerCase localeCompare find ops).InSync parse toLowerCase := by
  induction ops generalizing state with
  | nil => exact inSync_of_covers hcovers hstated h
  | cons op ops ih =>
    obtain ⟨hone, hkeeps, hrest⟩ := h
    rcases step_eq_or state op with heq | hstep
    · rw [heq] at hrest
      show (GuidState.run parse toLowerCase localeCompare find
        (state.step parse toLowerCase localeCompare find op) ops).InSync parse toLowerCase
      rw [heq]
      exact ih hcovers hstated hrest
    · refine ih (covers_step hstep hcovers) (stated_step hstep hstated hkeeps hone ?_) hrest
      cases ops with
      | nil => exact hrest
      | cons op' ops' => exact hrest.1

theorem given_run (h : Stated parse toLowerCase state) (ops : List StoreOp) {id name : JsString}
    (hname : (state.run parse toLowerCase localeCompare find ops).guidNameMap.get? id =
      some name) :
    ∃ k, Gives parse toLowerCase
      (state.run parse toLowerCase localeCompare find (ops.take k)).messages id name := by
  induction ops using List.reverseRecOn with
  | nil => exact ⟨0, h id name hname⟩
  | append_singleton ops op ih =>
    have hback : (∃ k, Gives parse toLowerCase
        (state.run parse toLowerCase localeCompare find (ops.take k)).messages id name) →
        ∃ k, Gives parse toLowerCase (state.run parse toLowerCase localeCompare find
          ((ops ++ [op]).take k)).messages id name := by
      rintro ⟨k, hk⟩
      refine ⟨min k ops.length, ?_⟩
      rw [List.take_append_of_le_length (Nat.min_le_right _ _), ← List.take_take, List.take_length]
      exact hk
    have hrun : state.run parse toLowerCase localeCompare find (ops ++ [op]) =
        (state.run parse toLowerCase localeCompare find ops).step parse toLowerCase localeCompare
          find op := List.foldl_append
    rw [hrun] at hname
    rcases step_eq_or (state.run parse toLowerCase localeCompare find ops) op with heq | hstep
    · rw [heq] at hname
      exact hback (ih hname)
    · rcases given_step hstep hname with hold | hgives
      · exact hback (ih hold)
      · refine ⟨(ops ++ [op]).length, ?_⟩
        rw [List.take_length, hrun]
        exact hgives

/-- After any operations the map has a name for every id that a map made of the
entries would have one for, and only names that were in a message.  What gathers the
names of all entries leaves that map itself; what adds names changes none that is
there; and while every id has one name the map is the one made of the entries. -/
theorem guidNameMap_run (parse : JsString → Option Json) (toLowerCase : JsString → JsString)
    (localeCompare : JsString → JsString → Ordering) (find : Option (LogEntry → Bool))
    (initial : GuidState) (h : initial.InSync parse toLowerCase) (ops : List StoreOp)
    (state : GuidState)
    (hstate : state = initial.run parse toLowerCase localeCompare find ops) :
    (∃ map, buildGuidNameMap parse toLowerCase state.view.entries = some map ∧
      ∀ id, (map.get? id).isSome → (state.guidNameMap.get? id).isSome) ∧
    (∀ id name, state.guidNameMap.get? id = some name → ∃ k, Gives parse toLowerCase
      (initial.run parse toLowerCase localeCompare find (ops.take k)).messages id name) ∧
    (∀ op state', state.step? parse toLowerCase localeCompare find op = some state' →
      (state.rebuilds op = true → state'.InSync parse toLowerCase) ∧
      (state.rebuilds op = false → ∀ id name, state.guidNameMap.get? id = some name →
        state'.guidNameMap.get? id = some name)) ∧
    ((∃ nameOf, initial.Consistent parse toLowerCase localeCompare find nameOf ops) →
      state.InSync parse toLowerCase) := by
  obtain ⟨hcovers, hstated⟩ := covers_of_inSync h
  subst hstate
  refine ⟨?_, fun id name hname => given_run hstated ops hname, fun op state' hstep => ?_,
    fun ⟨nameOf, hconsistent⟩ => inSync_run hcovers hstated hconsistent⟩
  · have hfinal : Covers parse toLowerCase
        (initial.run parse toLowerCase localeCompare find ops) := covers_run hcovers ops
    obtain ⟨map, hbuild⟩ := isSome_buildGuidNameMap hfinal.readable
    refine ⟨map, hbuild, fun id hsome => ?_⟩
    obtain ⟨name, hname⟩ := Option.isSome_iff_exists.mp hsome
    exact hfinal.present id name ((buildGuidNameMap_names hbuild).given id name hname)
  · rcases step?_cases hstep with ⟨hrebuilds, hbuild⟩ | ⟨hrebuilds, added, hadds⟩
    · refine ⟨fun _ => inSync_of_build hbuild rfl, fun hnot => ?_⟩
      rw [hrebuilds] at hnot
      cases hnot
    · refine ⟨fun hyes => ?_, fun _ id name hname => ?_⟩
      · rw [hrebuilds] at hyes
        cases hyes
      · obtain ⟨additions, -, hget⟩ := mergeGuidNameMap_spec hadds.merged
        rw [hget, hname]
        rfl

end Steps

/-! ## Two names of one id -/

def policiesText (name : String) : JsString :=
  js "[\x7b\"Id\":\"1a\",\"Name\":\"" ++ js name ++ js "\"\x7d]"

def policiesValue (name : String) : Json :=
  .array [.object [(js "Id", .string (js "1a")), (js "Name", .string (js name))]]

def parseSample (text : JsString) : Option Json :=
  if text = policiesText "First" then some (policiesValue "First")
  else if text = policiesText "Second" then some (policiesValue "Second")
  else none

def policiesEntry (id : Int) (name : String) : LogEntry :=
  ⟨id, js "ime.log", 1, none, getPoliciesPrefix ++ policiesText name, []⟩

theorem guidNameMap_run_empty :
    ∃ map, buildGuidNameMap parseSample id
      (GuidState.run parseSample id compareStrings none {}
        [.append [policiesEntry 0 "First"]]).view.entries = some map :=
  have hempty : ({} : GuidState).InSync parseSample id := ⟨∅, rfl, fun _ => rfl⟩
  have hrun := guidNameMap_run parseSample id compareStrings none {} hempty
    [.append [policiesEntry 0 "First"]] _ rfl
  ⟨hrun.1.choose, hrun.1.choose_spec.1⟩

/-- An id that is named again keeps its first name. -/
theorem guidNameMap_keeps_first :
    ¬ ∀ ops, (GuidState.run parseSample id compareStrings none {} ops).InSync parseSample id := by
  intro h
  obtain ⟨map, hmap, hget⟩ := h
    [.append [policiesEntry 0 "First"], .append [policiesEntry 1 "Second"]]
  have hbuild : buildGuidNameMap parseSample id
      [policiesEntry 0 "First", policiesEntry 1 "Second"] =
        some ⟨[(js "1a", js "Second")], by decide⟩ := by
    decide +kernel
  obtain rfl := Option.some.inj (hbuild.symm.trans hmap)
  exact absurd (hget (js "1a")) (by decide +kernel)

end LogStore
end CmTrace
