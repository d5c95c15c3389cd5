import CmTrace.EventLog.VisibleFilter
import CmTrace.EventQuery.Budget

/-!
# Filters that go with queries

A query's filter is no narrower than the local one: no event is left out of a
reply whose record would have been shown.  A text of event ids that cannot be
read shows nothing, and the actions that query ask for nothing then.
-/

namespace CmTrace
namespace EventLog

open Text Js EventQuery XPath

/-! ## Filters that always compile -/

section Compile

variable {filter : EventQueryFilter}

def Unquoted (filter : EventQueryFilter) : Prop :=
  filter.providers = [] ∧ ∀ lower upper, filter.time ≠ some (.between lower upper)

theorem selectBody_of_unquoted (h : Unquoted filter) (eventIds : List EventIdSelector) :
    ∃ body, filter.selectBody eventIds = .ok body := by
  cases hbody : filter.selectBody eventIds with
  | ok body => exact ⟨body, rfl⟩
  | error e =>
    exfalso
    have htime : ∃ ss, filter.timeClauses = .ok ss := by
      rw [EventQueryFilter.timeClauses]
      cases ht : filter.time with
      | none => exact ⟨_, rfl⟩
      | some window =>
        cases window with
        | last milliseconds => exact ⟨_, rfl⟩
        | between lower upper => exact absurd ht (h.2 lower upper)
    have hproviders : filter.providerClauses = .ok [] := by
      rw [EventQueryFilter.providerClauses, EventQueryFilter.distinctProviders, h.1]
      rfl
    obtain ⟨ss, hss⟩ := htime
    rw [EventQueryFilter.selectBody, EventQueryFilter.systemPredicates, hss, hproviders] at hbody
    rcases bind_error.mp hbody with hbody | ⟨_, _, hbody⟩
    · cases hbody
    · split_ifs at hbody <;> cases hbody

theorem splitNodes_of_unquoted (h : Unquoted filter) :
    ∀ (chunks : List (List EventIdSelector)) (id : Nat),
      ∃ nodes, filter.splitNodes id chunks = .ok nodes
  | [], _ => ⟨[], rfl⟩
  | chunk :: rest, id => by
    obtain ⟨body, hbody⟩ := selectBody_of_unquoted h chunk
    obtain ⟨nodes, hnodes⟩ := splitNodes_of_unquoted h rest (id + 1)
    exact ⟨_, bind_ok.mpr ⟨body, hbody, bind_ok.mpr ⟨nodes, hnodes, rfl⟩⟩⟩

theorem buildQuery_of_unquoted (h : Unquoted filter)
    (hfits : filter.fixedExpressionCost + filter.largestSelectorCost ≤ maxExpressionsPerSelect) :
    ∃ q, filter.buildQuery = .ok q := by
  obtain ⟨body, hbody⟩ := selectBody_of_unquoted h filter.eventIds
  obtain ⟨selection, hselection⟩ := selectBody_of_unquoted h []
  obtain ⟨nodes, hnodes⟩ :=
    splitNodes_of_unquoted h (chunkByExpressionBudget filter.eventIds filter.fixedExpressionCost) 0
  rw [EventQueryFilter.buildQuery]
  split_ifs with hun
  · exact ⟨_, rfl⟩
  · simp only [if_neg (Nat.not_lt.mpr hfits)]
    split_ifs
    · exact ⟨_, bind_ok.mpr ⟨selection, hselection, rfl⟩⟩
    · exact ⟨_, bind_ok.mpr ⟨nodes, hnodes, rfl⟩⟩
    · exact ⟨body, hbody⟩

end Compile

/-! ## What the server's filter lets through -/

variable (filters : FilterSnapshot)

theorem serverLevels_length (filterLevels : LevelSet) : (serverLevels filterLevels).length ≤ 4 := by
  rw [serverLevels]
  split_ifs with h
  · have hall : allLevels.length = 5 := rfl
    rw [List.length_map]
    omega
  · exact Nat.zero_le _

theorem expressionCost_le_two (selector : EventIdSelector) : selector.expressionCost ≤ 2 := by
  cases selector with
  | single id => exact Nat.le_succ 1
  | range low high =>
    rw [EventIdSelector.expressionCost]
    split_ifs <;> omega

theorem unquoted_buildServerFilter : Unquoted (buildServerFilter filters) := by
  refine ⟨rfl, fun lower upper h => ?_⟩
  obtain ⟨_, _, hlast⟩ := Option.map_eq_some_iff.mp h
  cases hlast

theorem buildServerFilter_fits :
    (buildServerFilter filters).fixedExpressionCost +
      (buildServerFilter filters).largestSelectorCost ≤ maxExpressionsPerSelect := by
  have htime : (buildServerFilter filters).timeCost ≤ 1 := by
    cases hw : filters.timeWindow <;>
      simp [EventQueryFilter.timeCost, buildServerFilter, EvtxTimeWindow.milliseconds, hw,
        timePredicate]
  have hlevels : (buildServerFilter filters).distinctLevels.length ≤ 4 := by
    have hlength : _ = ((buildServerFilter filters).levels.map fun level => level).dedup.length :=
      EventQueryFilter.length_distinct (fun _ _ => beq_iff_eq) (buildServerFilter filters).levels
    rw [List.map_id'] at hlength
    refine le_trans (le_of_eq hlength) (le_trans (List.dedup_sublist _).length_le ?_)
    exact serverLevels_length filters.filterLevels
  have hlargest : (buildServerFilter filters).largestSelectorCost ≤ 2 := by
    rw [EventQueryFilter.largestSelectorCost]
    cases hmax : ((buildServerFilter filters).eventIds.map EventIdSelector.expressionCost).max? with
    | none => exact Nat.zero_le _
    | some cost =>
      obtain ⟨selector, -, rfl⟩ := List.mem_map.mp (List.max?_mem hmax)
      exact expressionCost_le_two selector
  have hproviders : (buildServerFilter filters).distinctProviders.length = 0 := rfl
  have hkeywords : (buildServerFilter filters).keywords = none := rfl
  rw [EventQueryFilter.fixedExpressionCost, hproviders, hkeywords, maxExpressionsPerSelect]
  simp only [Option.isSome_none, Bool.false_eq_true, if_false]
  omega

theorem indexOf_fromLevelValue {raw : Nat} (h : EvtxLevel.fromLevelValue raw ≠ .information) :
    (EvtxLevel.fromLevelValue raw).indexOf + 1 = raw := by
  unfold EvtxLevel.fromLevelValue at h ⊢
  split at h <;> first | rfl | exact absurd rfl h

variable {filters} {remaining : EvtxRecord → Bool} {selectedChannels : List JsString}
variable {nowEpoch : Int} {channel : JsString} {svc : Service} {ev : Event}

theorem buildServerFilter_admits (hnow : svc.now ≤ nowEpoch)
    (hshown : recordMatchesVisibleFilter remaining selectedChannels filters nowEpoch
      (recordOf channel ev) = true) :
    (buildServerFilter filters).Admits svc ev := by
  simp only [recordMatchesVisibleFilter, Bool.and_eq_true] at hshown
  obtain ⟨⟨⟨⟨-, htime⟩, hlevel⟩, hids⟩, -⟩ := hshown
  refine ⟨?_, ?_, ?_, .inl rfl, fun _ h => nomatch h⟩
  · rw [isWithinTimeWindow] at htime
    simp only [buildServerFilter]
    cases hw : filters.timeWindow.milliseconds with
    | none => trivial
    | some milliseconds =>
      rw [hw] at htime
      have hreach : nowEpoch - milliseconds ≤ ev.created := of_decide_eq_true htime
      simp only [Option.map_some]
      omega
  · simp only [buildServerFilter, serverLevels]
    split_ifs with hpush
    · refine .inr (List.mem_map.mpr ⟨_, List.contains_iff_mem.mp hlevel, ?_⟩)
      exact indexOf_fromLevelValue fun h => hpush.2.2 (h ▸ List.contains_iff_mem.mp hlevel)
    · exact .inl rfl
  · simp only [buildServerFilter]
    split_ifs with hpush
    · refine .inr ?_
      rcases (Bool.or_eq_true _ _).mp hids with hempty | hmatch
      · simp [parseEventIdSelectors, hempty] at hpush
      · obtain ⟨-, hany⟩ := (Bool.and_eq_true _ _).mp hmatch
        obtain ⟨selector, hmem, hmatches⟩ := List.any_eq_true.mp hany
        refine ⟨selector, hmem, ?_⟩
        cases selector with
        | single id => exact (eq_of_beq hmatches).symm
        | range low high =>
          obtain ⟨hlow, hhigh⟩ := (Bool.and_eq_true _ _).mp hmatches
          exact ⟨le_trans (min_le_left _ _) (of_decide_eq_true hlow),
            le_trans (of_decide_eq_true hhigh) (le_max_right _ _)⟩
    · exact .inl rfl

/-! ## What the actions ask for -/

def EventRequest.Unfiltered : EventRequest → Prop
  | .query maxEvents filter => maxEvents ≠ some 0 ∧ filter.eventIds = []
  | .tail filter => filter.eventIds = []

def EventRequest.filter : EventRequest → EventQueryFilter
  | .query _ filter | .tail filter => filter

/-- What a request owes to the local filter it is made for: its query selects every
event whose record would be shown, and it is not made without ids when those that
were written cannot be read. -/
structure Faithful (filters : FilterSnapshot) (request : EventRequest) : Prop where
  keeps : ∃ q query, request.filter.buildQuery = .ok q ∧ readQuery q = some query ∧
    ∀ (remaining : EvtxRecord → Bool) (selectedChannels : List JsString) (channel : JsString)
      (svc : Service) (nowEpoch : Int) (ev : Event), svc.now ≤ nowEpoch →
        recordMatchesVisibleFilter remaining selectedChannels filters nowEpoch
          (recordOf channel ev) = true → query.selects svc ev = true
  refuses : (parseEventIdSelectors filters.filterEventIds).invalid = true → ¬ request.Unfiltered

theorem filter_request (filters : FilterSnapshot) (action : LoadAction) :
    (action.request filters).filter = buildServerFilter filters := by
  cases action <;> rfl

theorem trimSpace_trimSpace (raw : JsString) : trimSpace (trimSpace raw) = trimSpace raw := by
  have hstart : (trimSpace raw).dropWhile isSpace = trimSpace raw := by
    obtain ⟨rest, hpre⟩ : trimSpace raw <+: raw.dropWhile isSpace := List.rdropWhile_prefix _ _
    cases ht : trimSpace raw with
    | nil => rfl
    | cons u t =>
      have hhead := List.head?_dropWhile_not isSpace raw
      rw [ht] at hpre
      rw [← hpre] at hhead
      exact List.dropWhile_cons_of_neg (Bool.eq_false_iff.mp hhead)
  rw [trimSpace, hstart]
  exact List.rdropWhile_idempotent _ _

theorem hasInvalidEventIdFilter_eq (raw : JsString) :
    hasInvalidEventIdFilter raw = (parseEventIdSelectors raw).invalid := by
  rw [hasInvalidEventIdFilter, parseEventIdSelectors, parseEventIdSelectors]
  simp only [trimSpace_trimSpace]
  cases hempty : (trimSpace raw).isEmpty <;> simp

theorem buildServerFilter_invalid
    (h : (parseEventIdSelectors filters.filterEventIds).invalid = true) :
    (buildServerFilter filters).eventIds = [] := by
  simp only [buildServerFilter]
  rw [if_neg fun hpush => hpush.2 h]

/-- Requests are faithful to the local filter but for a live tail that is started
with event ids that cannot be read. -/
theorem request_faithful_iff (filters : FilterSnapshot) (action : LoadAction) :
    Faithful filters (action.request filters) ↔
      ¬ (action = .startLiveTail ∧ (parseEventIdSelectors filters.filterEventIds).invalid = true) := by
  constructor
  · rintro h ⟨rfl, hinvalid⟩
    exact h.refuses hinvalid (buildServerFilter_invalid hinvalid)
  · intro h
    obtain ⟨q, hq⟩ := buildQuery_of_unquoted (unquoted_buildServerFilter filters)
      (buildServerFilter_fits filters)
    refine ⟨⟨q, _, ?_, EventQueryFilter.buildQuery_reads hq, ?_⟩, fun hinvalid => ?_⟩
    · rw [filter_request, hq]
    · intro remaining selectedChannels channel svc nowEpoch ev hnow hshown
      exact (EventQueryFilter.reading_selects svc ev _).mpr (buildServerFilter_admits hnow hshown)
    · have hcheck : hasInvalidEventIdFilter filters.filterEventIds = true :=
        (hasInvalidEventIdFilter_eq _).trans hinvalid
      cases action with
      | startLiveTail => exact absurd ⟨rfl, hinvalid⟩ h
      | _ =>
        intro hun
        simp only [LoadAction.request, EventRequest.Unfiltered, hcheck, if_true] at hun
        exact hun.1 rfl

def unreadable : FilterSnapshot where
  timeWindow := .all
  filterEventIds := js "x"
  filterLevels := ⟨allLevels, by decide⟩

/-- A live tail is then started for the events of every id. -/
theorem tail_unfiltered : ¬ Faithful unreadable (LoadAction.startLiveTail.request unreadable) := by
  intro h
  have hids : (buildServerFilter unreadable).eventIds = [] := by decide +kernel
  exact h.refuses (by decide +kernel) hids

end EventLog
end CmTrace
