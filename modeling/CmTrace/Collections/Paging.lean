import Mathlib.Data.List.Basic

/-!
# Reading rows page by page

A page holds the rows from an offset on, at least one if there are any, and says
where the next page begins.  Followed to the end, whatever is asked of each page,
the pages hold each row once.
-/

namespace CmTrace
namespace Collections

variable {Row Page E : Type}

/-- What is read of a page. -/
structure PageView (Row Page : Type) where
  rows : Page → List Row
  next : Page → Option Nat

/-- One page for each limit, until a page has no next. -/
def followPages (view : PageView Row Page) (fetch : Nat → Nat → Except E Page) :
    Option Nat → List Nat → Except E (List Page × Option Nat)
  | none, _ => .ok ([], none)
  | some offset, [] => .ok ([], some offset)
  | some offset, limit :: limits =>
    match fetch offset limit with
    | .error e => .error e
    | .ok page =>
      match followPages view fetch (view.next page) limits with
      | .error e => .error e
      | .ok followed => .ok (page :: followed.1, followed.2)

/-- Pages from an offset on until so many rows are read, in so many pages at most. -/
def collectRows (view : PageView Row Page) (fetch : Nat → Nat → Except E Page) (limit : Nat) :
    Nat → Nat → Option Nat → Option (List Row)
  | _, 0, _ => some []
  | _, _ + 1, none => none
  | 0, _ + 1, some _ => none
  | fuel + 1, remaining + 1, some offset =>
    match fetch offset (min limit (remaining + 1)) with
    | .error _ => none
    | .ok page =>
      (collectRows view fetch limit fuel (remaining + 1 - (view.rows page).length)
        (view.next page)).map fun rest => view.rows page ++ rest

/-- A page is of the rows at its offset. -/
structure IsPage (view : PageView Row Page) (rows : List Row) (offset limit : Nat) (page : Page) :
    Prop where
  slice : view.rows page <+: rows.drop offset
  bounded : (view.rows page).length ≤ limit
  progress : offset < rows.length → view.rows page ≠ []
  next : view.next page = if offset + (view.rows page).length < rows.length then
    some (offset + (view.rows page).length) else none

def ServesPages (view : PageView Row Page) (fetch : Nat → Nat → Except E Page) (rows : List Row)
    (good : Page → Prop) (Valid : Nat → Prop) : Prop :=
  ∀ offset limit, offset ≤ rows.length → Valid limit →
    ∃ page, fetch offset limit = .ok page ∧ IsPage view rows offset limit page ∧ good page

def reached (rows : List Row) (next : Option Nat) : Nat := next.getD rows.length

section

variable {view : PageView Row Page} {fetch : Nat → Nat → Except E Page} {rows : List Row}
  {good : Page → Prop} {Valid : Nat → Prop}

theorem IsPage.reached_next {offset limit : Nat} {page : Page}
    (h : IsPage view rows offset limit page) (hoffset : offset ≤ rows.length) :
    reached rows (view.next page) = offset + (view.rows page).length := by
  have hlen := h.slice.length_le
  rw [List.length_drop] at hlen
  rw [reached, h.next]
  split_ifs
  · rfl
  · rw [Option.getD_none]
    omega

theorem IsPage.eq_take {offset limit : Nat} {page : Page}
    (h : IsPage view rows offset limit page) :
    view.rows page = (rows.drop offset).take (view.rows page).length :=
  List.prefix_iff_eq_take.mp h.slice

theorem follow_rows (hserves : ServesPages view fetch rows good Valid) :
    ∀ (limits : List Nat) (offset : Nat), (∀ limit ∈ limits, Valid limit) → offset ≤ rows.length →
      ∃ pages next, followPages view fetch (some offset) limits = .ok (pages, next) ∧
        offset ≤ reached rows next ∧ reached rows next ≤ rows.length ∧
        pages.flatMap view.rows = (rows.drop offset).take (reached rows next - offset) ∧
        (∀ page ∈ pages, good page ∧ (offset < rows.length → view.rows page ≠ [])) ∧
        (rows.length < offset + limits.length → next = none) := by
  intro limits
  induction limits with
  | nil =>
    intro offset _ hoffset
    refine ⟨[], some offset, rfl, Nat.le_refl _, hoffset, ?_, ?_, ?_⟩
    · rw [reached, Option.getD_some, Nat.sub_self, List.take_zero]
      rfl
    · intro page hpage
      cases hpage
    · intro hlt
      rw [List.length_nil] at hlt
      omega
  | cons limit limits ih =>
    intro offset hvalid hoffset
    obtain ⟨page, hfetch, hpage, hgood⟩ := hserves offset limit hoffset (hvalid _ List.mem_cons_self)
    have hreached := hpage.reached_next hoffset
    have hslice := hpage.slice.length_le
    rw [List.length_drop] at hslice
    have hdone : ∀ pages next, followPages view fetch (view.next page) limits = .ok (pages, next) →
        followPages view fetch (some offset) (limit :: limits) = .ok (page :: pages, next) := by
      intro pages next h
      rw [followPages, hfetch]
      simp only [h]
    cases hnext : view.next page with
    | none =>
      rw [hnext] at hreached
      rw [hnext] at hdone
      refine ⟨[page], none, hdone [] none (by rw [followPages]), hoffset, Nat.le_refl _, ?_, ?_, fun _ => rfl⟩
      · rw [List.flatMap_cons, List.flatMap_nil, List.append_nil, hreached, Nat.add_sub_cancel_left]
        exact hpage.eq_take
      · intro other hother
        rw [List.mem_singleton] at hother
        rw [hother]
        exact ⟨hgood, hpage.progress⟩
    | some next =>
      have hmore := hpage.next
      rw [hnext] at hmore hreached hdone
      rw [reached, Option.getD_some] at hreached
      have hlt : offset + (view.rows page).length < rows.length := by
        by_contra hge
        rw [if_neg hge] at hmore
        cases hmore
      have hrow := List.length_pos_of_ne_nil (hpage.progress (by omega))
      obtain ⟨pages, last, hfollow, hle, hlast, hrows, hall, hend⟩ :=
        ih next (fun other hother => hvalid other (List.mem_cons_of_mem _ hother)) (by omega)
      refine ⟨page :: pages, last, hdone pages last hfollow, by omega, hlast, ?_, ?_, ?_⟩
      · have hsplit : reached rows last - offset =
            (view.rows page).length + (reached rows last - next) := by omega
        rw [List.flatMap_cons, hrows, hsplit, List.take_add, ← hpage.eq_take, List.drop_drop,
          ← hreached]
      · intro other hother
        rcases List.mem_cons.mp hother with rfl | hother
        · exact ⟨hgood, hpage.progress⟩
        · exact ⟨(hall other hother).1, fun _ => (hall other hother).2 (by omega)⟩
      · intro hlong
        rw [List.length_cons] at hlong
        exact hend (by omega)

theorem collect_rows (hserves : ServesPages view fetch rows good Valid) {limit : Nat}
    (hvalid : ∀ n, 0 < n → Valid (min limit n)) :
    ∀ (fuel remaining offset : Nat), remaining ≤ fuel → offset + remaining ≤ rows.length →
      collectRows view fetch limit fuel remaining (some offset) =
        some ((rows.drop offset).take remaining) := by
  intro fuel
  induction fuel with
  | zero =>
    intro remaining offset hfuel _
    rw [Nat.le_zero.mp hfuel, collectRows, List.take_zero]
  | succ fuel ih =>
    intro remaining offset hfuel hroom
    cases remaining with
    | zero => rw [collectRows, List.take_zero]
    | succ remaining =>
      obtain ⟨page, hfetch, hpage, -⟩ := hserves offset (min limit (remaining + 1)) (by omega)
        (hvalid _ (Nat.succ_pos _))
      have hrow := List.length_pos_of_ne_nil (hpage.progress (by omega))
      have hbound := hpage.bounded
      have hsplit : remaining + 1 = (view.rows page).length +
          (remaining + 1 - (view.rows page).length) := by omega
      have hrest : collectRows view fetch limit fuel (remaining + 1 - (view.rows page).length)
          (view.next page) = some ((rows.drop (offset + (view.rows page).length)).take
            (remaining + 1 - (view.rows page).length)) := by
        rw [hpage.next]
        split_ifs with hlt
        · exact ih _ _ (by omega) (by omega)
        · have hzero : remaining + 1 - (view.rows page).length = 0 := by omega
          rw [hzero, collectRows, List.take_zero]
      rw [collectRows, hfetch]
      simp only [hrest, Option.map_some]
      conv_rhs => rw [hsplit, List.take_add, ← hpage.eq_take, List.drop_drop]

end

end Collections
end CmTrace
