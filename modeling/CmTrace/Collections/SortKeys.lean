import CmTrace.Collections.Sorted

/-!
# Sort keys

A key is a list of symbols that is written for a value so that keys, compared by
their first difference, are in the order of the values.  Keys written one after
another order the values field by field when no key is the beginning of another,
or when an end of the key is marked.
-/

namespace CmTrace
namespace Collections

open Std

variable {A B C : Type} {c : B → B → Ordering}

/-- What `write` writes for values with `P` is compared as the values are, and what
follows it only when they are alike. -/
def Decides (c : B → B → Ordering) (P : A → Prop) (cmp : A → A → Ordering) (write : A → List B) :
    Prop :=
  ∀ x y, P x → P y → ∀ s t,
    List.compareLex c (write x ++ s) (write y ++ t) = (cmp x y).then (List.compareLex c s t)

namespace Decides

variable {P : A → Prop} {cmp cmp' : A → A → Ordering} {write write' : A → List B}

theorem compare_keys (h : Decides c P cmp write) {x y : A} (hx : P x) (hy : P y) :
    List.compareLex c (write x) (write y) = cmp x y := by
  have hwhole := h x y hx hy [] []
  rw [List.append_nil, List.append_nil, List.compareLex_nil_nil] at hwhole
  rw [hwhole]
  cases cmp x y <;> rfl

theorem seq_of_eq (h : Decides c P cmp write)
    (h' : ∀ x y, P x → P y → cmp x y = .eq → ∀ s t,
      List.compareLex c (write' x ++ s) (write' y ++ t) =
        (cmp' x y).then (List.compareLex c s t)) :
    Decides c P (compareLex cmp cmp') fun x => write x ++ write' x := by
  intro x y hx hy s t
  rw [List.append_assoc, List.append_assoc, h x y hx hy, compareLex, Ordering.then_assoc]
  cases hcmp : cmp x y with
  | lt => rfl
  | gt => rfl
  | eq => exact h' x y hx hy hcmp s t

theorem seq (h : Decides c P cmp write) (h' : Decides c P cmp' write') :
    Decides c P (compareLex cmp cmp') fun x => write x ++ write' x :=
  h.seq_of_eq fun x y hx hy _ => h' x y hx hy

theorem on (h : Decides c P cmp write) {Q : C → Prop} {f : C → A} (hf : ∀ z, Q z → P (f z)) :
    Decides c Q (orderOn cmp f) fun z => write (f z) :=
  fun x y hx hy => h (f x) (f y) (hf x hx) (hf y hy)

theorem mono (h : Decides c P cmp write) {Q : A → Prop} (hQ : ∀ x, Q x → P x) :
    Decides c Q cmp write :=
  fun x y hx hy => h x y (hQ x hx) (hQ y hy)

variable [ReflCmp c]

theorem compareLex_append_left (mark s t : List B) :
    List.compareLex c (mark ++ s) (mark ++ t) = List.compareLex c s t := by
  induction mark with
  | nil => rfl
  | cons b mark ih =>
    rw [List.cons_append, List.cons_append, List.compareLex_cons_cons, ih, cmp_self c b]
    rfl

theorem before (h : Decides c P cmp write) (mark : List B) :
    Decides c P cmp fun x => mark ++ write x := by
  intro x y hx hy s t
  rw [List.append_assoc, List.append_assoc, compareLex_append_left, h x y hx hy]

end Decides

/-! ## Keys of which none begins another -/

theorem compareLex_append [LawfulEqCmp c] {a b : List B} (hab : a <+: b → a = b)
    (hba : b <+: a → b = a) (s t : List B) :
    List.compareLex c (a ++ s) (b ++ t) =
      (List.compareLex c a b).then (List.compareLex c s t) := by
  induction a generalizing b with
  | nil =>
    obtain rfl := hab List.nil_prefix
    rfl
  | cons x a ih =>
    cases b with
    | nil => cases hba List.nil_prefix
    | cons y b =>
      rw [List.cons_append, List.cons_append, List.compareLex_cons_cons, List.compareLex_cons_cons,
        Ordering.then_assoc]
      cases hxy : c x y with
      | lt => rfl
      | gt => rfl
      | eq =>
        obtain rfl := LawfulEqCmp.eq_of_compare hxy
        refine ih (fun h => ?_) fun h => ?_
        · exact (List.cons.inj (hab (List.cons_prefix_cons.mpr ⟨rfl, h⟩))).2
        · exact (List.cons.inj (hba (List.cons_prefix_cons.mpr ⟨rfl, h⟩))).2

theorem decides_of_prefix_free [LawfulEqCmp c] {P : A → Prop} {write : A → List B}
    (h : ∀ x y, P x → P y → write x <+: write y → write x = write y) :
    Decides c P (orderOn (List.compareLex c) write) write :=
  fun x y hx hy => compareLex_append (h x y hx hy) (h y x hy hx)

theorem decides_terminated [LawfulEqCmp c] {P : A → Prop} {write : A → List B} {mark : B}
    (h : ∀ x, P x → mark ∉ write x) :
    Decides c P (orderOn (List.compareLex c) fun x => write x ++ [mark])
      fun x => write x ++ [mark] := by
  refine decides_of_prefix_free fun x y _ hy hpre => ?_
  obtain ⟨rest, hrest⟩ := hpre
  cases hlast : rest.getLast? with
  | none =>
    rw [List.getLast?_eq_none_iff.mp hlast, List.append_nil] at hrest
    exact hrest
  | some last =>
    obtain ⟨init, rfl⟩ := List.getLast?_eq_some_iff.mp hlast
    rw [← List.append_assoc] at hrest
    have hinit := (List.append_inj' hrest rfl).1
    refine absurd ?_ (h y hy)
    rw [← hinit]
    exact List.mem_append_left _ (List.mem_append_right _ List.mem_cons_self)

/-! ## Optional values and lists -/

variable {P : A → Prop} {cmp : A → A → Ordering} {write : A → List B}

/-- The key of an optional value, of which an absent one has its own. -/
def writeOption (absent : List B) (write : A → List B) : Option A → List B
  | none   => absent
  | some x => write x

/-- The first symbol of every key is less than the first of `other`. -/
def StartsBelow (c : B → B → Ordering) (P : A → Prop) (write : A → List B) (other : B) : Prop :=
  ∀ x, P x → ∃ b rest, write x = b :: rest ∧ c b other = .lt

def OnSome (P : A → Prop) (value : Option A) : Prop := ∀ x ∈ value, P x

theorem decides_someFirst [OrientedCmp c] (h : Decides c P cmp write) {b : B} {absent : List B}
    (hstart : StartsBelow c P write b) :
    Decides c (OnSome P) (someFirst cmp) (writeOption (b :: absent) write) := by
  intro x y hx hy s t
  cases x with
  | none =>
    cases y with
    | none => exact Decides.compareLex_append_left (b :: absent) s t
    | some y =>
      obtain ⟨d, rest, hwrite, hlt⟩ := hstart y (hy y rfl)
      rw [writeOption, writeOption, hwrite, List.cons_append, List.cons_append,
        List.compareLex_cons_cons, OrientedCmp.gt_of_lt hlt]
      rfl
  | some x =>
    cases y with
    | none =>
      obtain ⟨d, rest, hwrite, hlt⟩ := hstart x (hx x rfl)
      rw [writeOption, writeOption, hwrite, List.cons_append, List.cons_append,
        List.compareLex_cons_cons, hlt]
      rfl
    | some y => exact h x y (hx x rfl) (hy y rfl) s t

theorem decides_noneFirst [OrientedCmp c] (h : Decides c P cmp write) {b d : B}
    {absent present : List B} (hlt : c b d = .lt) :
    Decides c (OnSome P) (noneFirst cmp)
      (writeOption (b :: absent) fun x => d :: present ++ write x) := by
  intro x y hx hy s t
  cases x with
  | none =>
    cases y with
    | none => exact Decides.compareLex_append_left (b :: absent) s t
    | some y =>
      rw [writeOption, writeOption, List.cons_append, List.cons_append, List.cons_append,
        List.compareLex_cons_cons, hlt]
      rfl
  | some x =>
    cases y with
    | none =>
      rw [writeOption, writeOption, List.cons_append, List.cons_append, List.cons_append,
        List.compareLex_cons_cons, OrientedCmp.gt_of_lt hlt]
      rfl
    | some y => exact h.before (d :: present) x y (hx x rfl) (hy y rfl) s t

/-- Keys with a separator between them and a greater mark at the end. -/
def writeList (separator mark : B) (write : A → List B) : List A → List B
  | []           => [mark]
  | [x]          => write x ++ [mark]
  | x :: y :: xs => write x ++ separator :: writeList separator mark write (y :: xs)

theorem compareLex_cons_self [ReflCmp c] (b : B) (s t : List B) :
    List.compareLex c (b :: s) (b :: t) = List.compareLex c s t := by
  rw [List.compareLex_cons_cons, cmp_self c b]
  rfl

theorem longerFirst_nil_cons (cmp : A → A → Ordering) (y : A) (ys : List A) :
    longerFirst cmp [] (y :: ys) = .gt :=
  Nat.compare_eq_gt.mpr (Nat.succ_pos ys.length)

theorem longerFirst_cons_nil (cmp : A → A → Ordering) (x : A) (xs : List A) :
    longerFirst cmp (x :: xs) [] = .lt :=
  Nat.compare_eq_lt.mpr (Nat.succ_pos xs.length)

theorem longerFirst_cons_cons (cmp : A → A → Ordering) (x y : A) (xs ys : List A) :
    longerFirst cmp (x :: xs) (y :: ys) = (cmp x y).then (longerFirst cmp xs ys) := by
  rw [longerFirst_eq, longerFirst_eq, List.map_cons, List.map_cons, List.cons_append,
    List.cons_append, List.compareLex_cons_cons]
  rfl

/-- Lists come by their first difference, a list after those that continue it, since
the mark is greater than what may follow in its place. -/
theorem decides_longerFirst [OrientedCmp c] (h : Decides c P cmp write) {separator mark : B}
    (hseparator : c separator mark = .lt) (hstart : StartsBelow c P write mark) :
    Decides c (fun xs => ∀ x ∈ xs, P x) (longerFirst cmp) (writeList separator mark write) := by
  -- behind an element stands a separator or the mark
  have hrest : ∀ x xs, writeList separator mark write (x :: xs) =
      write x ++ if xs = [] then [mark] else separator :: writeList separator mark write xs := by
    intro x xs
    cases xs with
    | nil => rfl
    | cons y xs => rfl
  intro xs
  induction xs with
  | nil =>
    intro ys _ hys s t
    cases ys with
    | nil => exact compareLex_cons_self mark s t
    | cons y ys =>
      obtain ⟨b, rest, hwrite, hlt⟩ := hstart y (hys y List.mem_cons_self)
      rw [hrest, hwrite, writeList, List.cons_append, List.cons_append, List.cons_append,
        List.compareLex_cons_cons, OrientedCmp.gt_of_lt hlt, longerFirst_nil_cons]
      rfl
  | cons x xs ih =>
    intro ys hxs hys s t
    cases ys with
    | nil =>
      obtain ⟨b, rest, hwrite, hlt⟩ := hstart x (hxs x List.mem_cons_self)
      rw [hrest, hwrite, writeList, List.cons_append, List.cons_append, List.cons_append,
        List.compareLex_cons_cons, hlt, longerFirst_cons_nil]
      rfl
    | cons y ys =>
      have hnext := ih ys (fun z hz => hxs z (List.mem_cons_of_mem x hz))
        (fun z hz => hys z (List.mem_cons_of_mem y hz)) s t
      rw [hrest, hrest, List.append_assoc, List.append_assoc,
        h x y (hxs x List.mem_cons_self) (hys y List.mem_cons_self), longerFirst_cons_cons,
        Ordering.then_assoc]
      congr 1
      cases xs with
      | nil =>
        cases ys with
        | nil => exact hnext
        | cons y' ys =>
          rw [if_pos rfl, if_neg (List.cons_ne_nil _ _), List.cons_append, List.cons_append,
            List.compareLex_cons_cons, OrientedCmp.gt_of_lt hseparator, longerFirst_nil_cons]
          rfl
      | cons x' xs =>
        cases ys with
        | nil =>
          rw [if_pos rfl, if_neg (List.cons_ne_nil _ _), List.cons_append, List.cons_append,
            List.compareLex_cons_cons, hseparator, longerFirst_cons_nil]
          rfl
        | cons y' ys =>
          rw [if_neg (List.cons_ne_nil _ _), if_neg (List.cons_ne_nil _ _), List.cons_append,
            List.cons_append, compareLex_cons_self]
          exact hnext

end Collections
end CmTrace
