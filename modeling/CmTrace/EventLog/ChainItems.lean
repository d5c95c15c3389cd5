import CmTrace.EventLog.Chains

/-!
# The items of a chain

Of the items of one origin the least is kept, in an order that tells any two
items, so that the items of a list can come in any order.
-/

namespace CmTrace
namespace EventLog

open Std Collections Js
open Timeline (TimelineSeverity natOrder)

/-! ## Origins as text -/

theorem mem_shownFields {fields : List (JsString × Option JsonValue)} {name : JsString}
    {value : JsonValue} (h : (name, value) ∈ shownFields fields) : name ∈ fields.map Prod.fst := by
  obtain ⟨field, hfield, hshown⟩ := List.mem_filterMap.mp h
  obtain ⟨value', -, heq⟩ := Option.map_eq_some_iff.mp hshown
  exact List.mem_map.mpr ⟨field, hfield, congrArg Prod.fst heq⟩

theorem shownFields_some (name : JsString) (value : JsonValue)
    (fields : List (JsString × Option JsonValue)) :
    shownFields ((name, some value) :: fields) = (name, value) :: shownFields fields := rfl

theorem shownFields_none (name : JsString) (fields : List (JsString × Option JsonValue)) :
    shownFields ((name, none) :: fields) = shownFields fields := rfl

theorem shownFields_inj {xs ys : List (JsString × Option JsonValue)}
    (hnames : xs.map Prod.fst = ys.map Prod.fst) (hnodup : (xs.map Prod.fst).Nodup)
    (h : shownFields xs = shownFields ys) : xs = ys := by
  induction xs generalizing ys with
  | nil => exact (List.map_eq_nil_iff.mp hnames.symm).symm
  | cons x xs ih => cases ys with
    | nil => cases hnames
    | cons y ys =>
      obtain ⟨name, value⟩ := x
      obtain ⟨name', value'⟩ := y
      obtain ⟨rfl, hrest⟩ := List.cons.inj hnames
      obtain ⟨hfresh, hfreshes⟩ := List.nodup_cons.mp hnodup
      cases value with
      | none => cases value' with
        | none => rw [ih hrest hfreshes h]
        | some value' =>
          rw [shownFields_none, shownFields_some] at h
          exact absurd (mem_shownFields (h ▸ List.mem_cons_self ..)) hfresh
      | some value => cases value' with
        | none =>
          rw [shownFields_none, shownFields_some] at h
          exact absurd (hrest ▸ mem_shownFields (h ▸ List.mem_cons_self ..)) hfresh
        | some value' =>
          rw [shownFields_some, shownFields_some] at h
          obtain ⟨hvalue, hshown⟩ := List.cons.inj h
          rw [ih hrest hfreshes hshown, (Prod.mk.inj hvalue).2]

theorem nullable_injective : Function.Injective nullable := by
  intro a b h
  cases a <;> cases b <;> first | rfl | cases h
  rfl

theorem nullableNumber_injective :
    Function.Injective fun value : Option Int => (value.map JsonValue.number).getD .null := by
  intro a b h
  cases a <;> cases b <;> first | rfl | cases h
  rfl

theorem logFields_injective : Function.Injective logFields := by
  intro a b h
  simp only [logFields, List.cons.injEq, Prod.mk.injEq, Option.some_inj, JsonValue.text.injEq,
    JsonValue.number.injEq, nullable_injective.eq_iff, true_and, and_true] at h
  cases a
  cases b
  simpa using h

theorem eventFields_injective : Function.Injective eventFields := by
  intro a b h
  simp only [eventFields, List.cons.injEq, Prod.mk.injEq, Option.some_inj, JsonValue.text.injEq,
    JsonValue.number.injEq, nullable_injective.eq_iff, true_and, and_true,
    (Option.map_injective nullable_injective).eq_iff, nullableNumber_injective.eq_iff,
    (Option.map_injective fun _ _ => JsonValue.texts.inj).eq_iff] at h
  cases a
  cases b
  simpa using h

theorem logFields_nodup (o : LogOrigin) : ((logFields o).map Prod.fst).Nodup := by
  simp only [logFields, List.map_cons, List.map_nil]
  decide +kernel

theorem eventFields_nodup (o : EventOrigin) : ((eventFields o).map Prod.fst).Nodup := by
  simp only [eventFields, List.map_cons, List.map_nil]
  decide +kernel

theorem head?_logFields (o : LogOrigin) :
    (originFields (.log o)).head? = some (js "kind", .text (js "log")) := rfl

theorem head?_eventFields (o : EventOrigin) :
    (originFields (.event o)).head? = some (js "kind", .text (js "event")) := rfl

theorem kind_ne : (js "kind", JsonValue.text (js "log")) ≠ (js "kind", .text (js "event")) := by
  decide +kernel

theorem originFields_injective : Function.Injective originFields := by
  intro a b h
  have hhead := congrArg List.head? h
  cases a with
  | log a => cases b with
    | log b =>
      have hfields : logFields a = logFields b := shownFields_inj rfl (logFields_nodup a) h
      rw [logFields_injective hfields]
    | event b =>
      rw [head?_logFields, head?_eventFields, Option.some_inj] at hhead
      exact absurd hhead kind_ne
  | event a => cases b with
    | log b =>
      rw [head?_logFields, head?_eventFields, Option.some_inj] at hhead
      exact absurd hhead.symm kind_ne
    | event b =>
      have hfields : eventFields a = eventFields b := shownFields_inj rfl (eventFields_nodup a) h
      rw [eventFields_injective hfields]

/-! ## The item of an origin -/

/-- The earliest first, then the highest severity, then the text. -/
def itemOrder : TimelineItem → TimelineItem → Ordering :=
  compareLex (orderOn intOrder (·.timestampMs)) <|
  compareLex (fun a b => orderOn natOrder (·.severity.rank) b a) <|
  compareLex (orderOn compareStrings (·.message))
    (orderOn compareStrings fun item => stringify (originFields item.origin))

instance : TransCmp itemOrder := by
  unfold itemOrder
  infer_instance

instance : LawfulEqCmp itemOrder where
  compare_self := cmp_self _ _
  eq_of_compare {a b} h := by
    rw [itemOrder, compareLex_eq_iff, compareLex_eq_iff, compareLex_eq_iff] at h
    obtain ⟨htime, hrank, hmessage, horigin⟩ := h
    have htime := eq_of_cmp intOrder htime
    have hrank := TimelineSeverity.rank_injective (eq_of_cmp natOrder hrank)
    have hmessage := eq_of_cmp compareStrings hmessage
    have horigin := originFields_injective (stringify_injective (eq_of_cmp compareStrings horigin))
    cases a
    cases b
    cases htime
    cases hrank
    cases hmessage
    cases horigin
    rfl

theorem itemOrder_eq (a b : TimelineItem) : itemOrder a b =
    (intOrder a.timestampMs b.timestampMs).then ((natOrder b.severity.rank a.severity.rank).then
      ((compareStrings a.message b.message).then (compareStrings
        (stringify (originFields a.origin)) (stringify (originFields b.origin))))) := rfl

theorem preferItem_eq (a b : TimelineItem) : preferItem a b = lesser itemOrder a b := by
  rw [preferItem, lesser, itemOrder_eq, intOrder, natOrder]
  by_cases htime : a.timestampMs = b.timestampMs
  · rw [if_neg (not_not_intro htime), htime, Int.compare_eq_eq.mpr rfl, Ordering.eq_then]
    by_cases hrank : a.severity.rank = b.severity.rank
    · rw [if_neg (not_not_intro hrank), hrank, Nat.compare_eq_eq.mpr rfl, Ordering.eq_then]
      cases compareStrings a.message b.message <;> rfl
    · rw [if_pos hrank]
      by_cases hlt : b.severity.rank < a.severity.rank
      · rw [if_pos hlt, Nat.compare_eq_lt.mpr hlt]
        rfl
      · rw [if_neg hlt, Nat.compare_eq_gt.mpr (by omega)]
        rfl
  · rw [if_pos htime]
    by_cases hlt : a.timestampMs < b.timestampMs
    · rw [if_pos hlt, Int.compare_eq_lt.mpr hlt]
      rfl
    · rw [if_neg hlt, Int.compare_eq_gt.mpr (by omega)]
      rfl

theorem keepItem_eq (itemsById : Items) (item : TimelineItem) :
    keepItem itemsById item = Function.update itemsById (timelineOriginId item.origin)
      (some (((itemsById (timelineOriginId item.origin)).map
        fun existing => preferItem existing item).getD item)) := by
  rw [keepItem]
  cases itemsById (timelineOriginId item.origin) <;> rfl

theorem keepItem_right_comm (itemsById : Items) (a b : TimelineItem) :
    keepItem (keepItem itemsById a) b = keepItem (keepItem itemsById b) a := by
  rw [keepItem_eq, keepItem_eq, keepItem_eq, keepItem_eq]
  by_cases hid : timelineOriginId a.origin = timelineOriginId b.origin
  · rw [hid, Function.update_self, Function.update_self, Function.update_idem, Function.update_idem]
    cases itemsById (timelineOriginId b.origin) with
    | none =>
      simp only [Option.map_none, Option.getD_none, Option.map_some, Option.getD_some, preferItem_eq]
      rw [lesser_comm]
    | some existing =>
      simp only [Option.map_some, Option.getD_some, preferItem_eq]
      rw [lesser_right_comm]
  · rw [Function.update_of_ne hid, Function.update_of_ne (Ne.symm hid), Function.update_comm hid]

theorem foldl_keepItem_perm {xs ys : List TimelineItem} (h : xs.Perm ys) (itemsById : Items) :
    xs.foldl keepItem itemsById = ys.foldl keepItem itemsById :=
  haveI : RightCommutative keepItem := ⟨keepItem_right_comm⟩
  h.foldl_eq itemsById

end EventLog
end CmTrace
