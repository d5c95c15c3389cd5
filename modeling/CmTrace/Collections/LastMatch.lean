import Mathlib.Data.List.Basic

/-!
# The last element with a property

Changing the last element that has a property, and the places of all elements that
have it, the last one first: the top of that stack is the element that is changed.
-/

namespace CmTrace
namespace Collections

variable {A : Type}

/-- The last element with `p` is changed, if there is one. -/
def changeLast (p : A → Bool) (f : A → A) : List A → Option (List A)
  | [] => none
  | a :: rest =>
    match changeLast p f rest with
    | some changed => some (a :: changed)
    | none => if p a then some (f a :: rest) else none

/-- The places of the elements with `p`, counted from `base`, the last one first. -/
def placesFrom (p : A → Bool) : Nat → List A → List Nat
  | _, [] => []
  | base, a :: rest => placesFrom p (base + 1) rest ++ if p a then [base] else []

/-- Where an element stands that is the last one with `p`. -/
structure LastAt (p : A → Bool) (xs pre : List A) (a : A) (post : List A) : Prop where
  eq : xs = pre ++ a :: post
  has : p a = true
  none_after : ∀ b ∈ post, p b = false

theorem changeLast_cases (p : A → Bool) (f : A → A) (xs : List A) :
    (∃ pre a post, LastAt p xs pre a post ∧ changeLast p f xs = some (pre ++ f a :: post)) ∨
      ((∀ a ∈ xs, p a = false) ∧ changeLast p f xs = none) := by
  induction xs with
  | nil => exact .inr ⟨fun a ha => absurd ha List.not_mem_nil, rfl⟩
  | cons x xs ih =>
    obtain ⟨pre, a, post, hlast, hchange⟩ | ⟨hnone, hchange⟩ := ih
    · refine .inl ⟨x :: pre, a, post, ⟨by rw [hlast.eq, List.cons_append], hlast.has,
        hlast.none_after⟩, ?_⟩
      rw [changeLast, hchange, List.cons_append]
    · cases hx : p x with
      | true =>
        refine .inl ⟨[], x, xs, ⟨rfl, hx, hnone⟩, ?_⟩
        rw [changeLast, hchange]
        simp only [hx, if_true, List.nil_append]
      | false =>
        refine .inr ⟨fun a ha => ?_, ?_⟩
        · rcases List.mem_cons.mp ha with rfl | ha
          · exact hx
          · exact hnone a ha
        · rw [changeLast, hchange]
          simp only [hx, Bool.false_eq_true, if_false]

theorem changeLast_none {p : A → Bool} {xs : List A} (h : ∀ a ∈ xs, p a = false) (f : A → A) :
    changeLast p f xs = none := by
  obtain ⟨pre, a, post, hlast, _⟩ | ⟨_, hnone⟩ := changeLast_cases p f xs
  · have ha := h a (by rw [hlast.eq]; exact List.mem_append_right _ List.mem_cons_self)
    rw [hlast.has] at ha
    cases ha
  · exact hnone

theorem LastAt.changeLast {p : A → Bool} {xs pre post : List A} {a : A} (h : LastAt p xs pre a post)
    (f : A → A) : changeLast p f xs = some (pre ++ f a :: post) := by
  obtain ⟨rfl, hhas, hafter⟩ := h
  induction pre with
  | nil =>
    rw [List.nil_append, Collections.changeLast, changeLast_none hafter]
    simp only [hhas, if_true, List.nil_append]
  | cons x pre ih => rw [List.cons_append, Collections.changeLast, ih, List.cons_append]

theorem placesFrom_append (p : A → Bool) (base : Nat) (xs ys : List A) :
    placesFrom p base (xs ++ ys) = placesFrom p (base + xs.length) ys ++ placesFrom p base xs := by
  induction xs generalizing base with
  | nil => exact (List.append_nil _).symm
  | cons x xs ih =>
    have hbase : base + 1 + xs.length = base + (xs.length + 1) := by omega
    rw [List.cons_append, placesFrom, ih, placesFrom, List.length_cons, List.append_assoc, hbase]

theorem placesFrom_none {p : A → Bool} {xs : List A} (h : ∀ a ∈ xs, p a = false) (base : Nat) :
    placesFrom p base xs = [] := by
  induction xs generalizing base with
  | nil => rfl
  | cons x xs ih =>
    rw [placesFrom, ih (fun a ha => h a (List.mem_cons_of_mem x ha)), h x List.mem_cons_self]
    rfl

theorem placesFrom_congr {p : A → Bool} {xs ys : List A} (h : xs.map p = ys.map p) (base : Nat) :
    placesFrom p base xs = placesFrom p base ys := by
  induction xs generalizing base ys with
  | nil => rw [List.map_eq_nil_iff.mp h.symm]
  | cons x xs ih =>
    cases ys with
    | nil => cases h
    | cons y ys =>
      obtain ⟨hxy, hrest⟩ := List.cons.inj h
      rw [placesFrom, placesFrom, ih hrest, hxy]

theorem placesFrom_snoc (p : A → Bool) (xs : List A) (a : A) :
    placesFrom p 0 (xs ++ [a]) = (if p a then [xs.length] else []) ++ placesFrom p 0 xs := by
  rw [placesFrom_append, placesFrom, placesFrom, Nat.zero_add, List.nil_append]

theorem LastAt.places {p : A → Bool} {xs pre post : List A} {a : A} (h : LastAt p xs pre a post) :
    placesFrom p 0 xs = pre.length :: placesFrom p 0 pre := by
  rw [h.eq, placesFrom_append, placesFrom, placesFrom_none h.none_after, h.has, Nat.zero_add]
  rfl

theorem LastAt.places_changed {p : A → Bool} {xs pre post : List A} {a b : A}
    (h : LastAt p xs pre a post) (hb : p b = false) :
    placesFrom p 0 (pre ++ b :: post) = placesFrom p 0 pre := by
  rw [placesFrom_append, placesFrom, placesFrom_none h.none_after, hb]
  rfl

theorem modify_length_append (f : A → A) (pre : List A) (a : A) (post : List A) :
    (pre ++ a :: post).modify pre.length f = pre ++ f a :: post := by
  induction pre with
  | nil => rfl
  | cons x pre ih =>
    rw [List.cons_append, List.length_cons, List.modify_succ_cons, ih, List.cons_append]

end Collections
end CmTrace
