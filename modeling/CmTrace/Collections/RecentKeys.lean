import Mathlib.Data.Finset.Interval
import Mathlib.Data.Finset.Card
import Mathlib.Order.Interval.Finset.Nat

/-!
# A bounded memory of keys

The keys that were seen last, the oldest of which are forgotten when there are too
many.  Windows that slide over a sequence, none wider than some width, are read from
their end; what the memory does not have yet is new.  A memory that keeps more than
twice the width forgets nothing that a window still shows.
-/

namespace CmTrace
namespace Collections

variable {R I : Type} [DecidableEq I]

structure KeyMemory (I : Type) where
  seen : Finset I := ∅
  order : List I := []
  deriving DecidableEq

namespace KeyMemory

/-- Keep the elements whose key is not seen, and see it. -/
def retain (key : R → I) (m : KeyMemory I) : List R → KeyMemory I × List R
  | [] => (m, [])
  | r :: rest =>
    if key r ∈ m.seen then retain key m rest
    else
      let next := retain key ⟨insert (key r) m.seen, m.order ++ [key r]⟩ rest
      (next.1, r :: next.2)

def evict (m : KeyMemory I) : Nat → KeyMemory I
  | 0 => m
  | n + 1 =>
    match m.order with
    | [] => m
    | i :: rest => evict ⟨m.seen.erase i, rest⟩ n

/-- Forget keys when there are more than a bound. -/
def trim (bound n : Nat) (m : KeyMemory I) : KeyMemory I :=
  if bound < m.seen.card then m.evict n else m

/-! ## One list -/

theorem retain_seen {key : R → I} {m : KeyMemory I} {xs : List R} (h : ∀ x ∈ xs, key x ∈ m.seen) :
    m.retain key xs = (m, []) := by
  induction xs with
  | nil => rfl
  | cons x xs ih =>
    rw [List.forall_mem_cons] at h
    rw [retain, if_pos h.1, ih h.2]

theorem retain_new {key : R → I} {m : KeyMemory I} {xs : List R} (h : ∀ x ∈ xs, key x ∉ m.seen)
    (hnodup : (xs.map key).Nodup) (ys : List R) :
    m.retain key (xs ++ ys) =
      let next := (⟨m.seen ∪ (xs.map key).toFinset, m.order ++ xs.map key⟩ : KeyMemory I)
      ((next.retain key ys).1, xs ++ (next.retain key ys).2) := by
  induction xs generalizing m with
  | nil => simp
  | cons x xs ih =>
    rw [List.forall_mem_cons] at h
    rw [List.map_cons, List.nodup_cons] at hnodup
    have hrest : ∀ y ∈ xs, key y ∉ insert (key x) m.seen := by
      intro y hy hmem
      rcases Finset.mem_insert.mp hmem with heq | hmem
      · exact hnodup.1 (heq ▸ List.mem_map_of_mem hy)
      · exact h.2 y hy hmem
    have hseen : insert (key x) m.seen ∪ (xs.map key).toFinset =
        m.seen ∪ ((x :: xs).map key).toFinset := by
      ext i
      simp only [Finset.mem_union, Finset.mem_insert, List.mem_toFinset, List.map_cons,
        List.mem_cons]
      tauto
    have hih := ih (m := ⟨insert (key x) m.seen, m.order ++ [key x]⟩) hrest hnodup.2
    rw [List.cons_append, retain, if_neg h.1, hih]
    simp only [hseen, List.append_assoc]
    rfl

theorem evict_eq (n : Nat) {m : KeyMemory I} (hnodup : m.order.Nodup)
    (hseen : m.seen = m.order.toFinset) :
    m.evict n = ⟨(m.order.drop n).toFinset, m.order.drop n⟩ := by
  induction n generalizing m with
  | zero => rw [evict, List.drop_zero, ← hseen]
  | succ n ih =>
    obtain ⟨seen, order⟩ := m
    cases order with
    | nil =>
      rw [evict, List.drop_nil]
      exact congrArg (KeyMemory.mk · []) hseen
    | cons i rest =>
      obtain ⟨hi, hrest⟩ := List.nodup_cons.mp hnodup
      have herase : seen.erase i = rest.toFinset := by
        rw [show seen = (i :: rest).toFinset from hseen, List.toFinset_cons, Finset.erase_insert]
        rwa [List.mem_toFinset]
      rw [evict]
      exact ih hrest herase

/-! ## Windows that slide -/

/-- What a memory has of a sequence of keys after windows up to the one from `first` to
`last`: the keys of some places in their order, all of the window among them, and a place
that came later is not a width before one that came earlier. -/
structure Remembers (keys : List I) (width : Nat) (m : KeyMemory I) (first last : Nat)
    (ps : List Nat) : Prop where
  seen : m.seen = m.order.toFinset
  order : m.order.map some = ps.map (keys[·]?)
  nodup : ps.Nodup
  lt : ∀ p ∈ ps, p < last
  close : ps.Pairwise fun p q => p < q + width
  window : ∀ p, first ≤ p → p < last → p ∈ ps
  bounded : last ≤ keys.length

variable {keys : List I} {width first last : Nat} {m : KeyMemory I} {ps : List Nat}

theorem remembers_nil (keys : List I) (width : Nat) : Remembers keys width {} 0 0 [] where
  seen := rfl
  order := rfl
  nodup := List.nodup_nil
  lt := fun _ hp => absurd hp List.not_mem_nil
  close := List.Pairwise.nil
  window := fun _ _ hp => absurd hp (Nat.not_lt_zero _)
  bounded := Nat.zero_le _

theorem Remembers.mem_seen (h : Remembers keys width m first last ps) (i : I) :
    i ∈ m.seen ↔ ∃ p ∈ ps, keys[p]? = some i := by
  rw [h.seen, List.mem_toFinset]
  have hsome : i ∈ m.order ↔ some i ∈ m.order.map some := by
    rw [List.mem_map_of_injective (Option.some_injective I)]
  rw [hsome, h.order, List.mem_map]

omit [DecidableEq I] in
theorem getElem?_inj_of_nodup (hkeys : keys.Nodup) {p q : Nat} (hp : p < keys.length)
    (h : keys[p]? = keys[q]?) : p = q := by
  have hq : q < keys.length := by
    by_contra hq
    rw [List.getElem?_eq_getElem hp, List.getElem?_eq_none (Nat.not_lt.mp hq)] at h
    cases h
  rw [List.getElem?_eq_getElem hp, List.getElem?_eq_getElem hq] at h
  exact (hkeys.getElem_inj_iff).mp (Option.some.inj h)

theorem Remembers.order_nodup (hkeys : keys.Nodup) (h : Remembers keys width m first last ps) :
    m.order.Nodup := by
  have hplaces : (ps.map (keys[·]?)).Nodup := h.nodup.map_on fun p hp q _ heq =>
    getElem?_inj_of_nodup hkeys (Nat.lt_of_lt_of_le (h.lt p hp) h.bounded) heq
  rw [← h.order] at hplaces
  exact hplaces.of_map some

/-- The places of a window past those that were seen, the last first. -/
def newPlaces (first last : Nat) : List Nat := (List.range' first (last - first)).reverse

theorem mem_newPlaces {p : Nat} : p ∈ newPlaces first last ↔ first ≤ p ∧ p < last := by
  rw [newPlaces, List.mem_reverse, List.mem_range'_1]
  omega

/-- The elements from one place to another, the last first. -/
def newest (xs : List R) (first last : Nat) : List R := ((xs.take last).drop first).reverse

theorem newest_split (xs : List R) {first mid last : Nat} (h : mid ≤ last) (h' : first ≤ mid) :
    newest xs first last = newest xs mid last ++ newest xs first mid := by
  have hsplit : (xs.take last).drop first =
      (xs.take mid).drop first ++ (xs.take last).drop mid := by
    conv_lhs => rw [← List.take_append_drop (mid - first) ((xs.take last).drop first)]
    rw [← List.drop_take, List.take_take, Nat.min_eq_left h, List.drop_drop,
      Nat.add_sub_cancel' h']
  rw [newest, hsplit, List.reverse_append]
  rfl

omit [DecidableEq I] in
theorem map_newest {key : R → I} (xs : List R) (first last : Nat) (h : last ≤ xs.length) :
    (newest xs first last).map (fun x => some (key x)) =
      (newPlaces first last).map ((xs.map key)[·]?) := by
  rw [newest, newPlaces, List.map_reverse, List.map_reverse]
  congr 1
  refine List.ext_getElem ?_ fun i hi hi' => ?_
  · simp
    omega
  · simp only [List.length_map, List.length_drop, List.length_take] at hi
    rw [List.getElem_map, List.getElem_map, List.getElem_drop, List.getElem_take,
      List.getElem_range', List.getElem?_map, List.getElem?_eq_getElem (by omega)]
    simp

theorem retain_newest {key : R → I} {xs : List R} (hkeys : (xs.map key).Nodup)
    (h : Remembers (xs.map key) width m first last ps) {first' last' : Nat}
    (hfirst : first ≤ first') (hlast : last ≤ last') (horder : first' ≤ last')
    (hwidth : last' - first' ≤ width) (hlength : last' ≤ xs.length) :
    (m.retain key (newest xs first' last')).2 = newest xs (max first' last) last' ∧
      Remembers (xs.map key) width (m.retain key (newest xs first' last')).1 first' last'
        (ps ++ newPlaces (max first' last) last') := by
  have hmid : max first' last ≤ last' := max_le horder hlast
  have hplace : ∀ first last, last ≤ xs.length → ∀ x ∈ newest xs first last,
      ∃ p, first ≤ p ∧ p < last ∧ (xs.map key)[p]? = some (key x) := by
    intro first last hle x hx
    have hmem := List.mem_map_of_mem (f := fun x => some (key x)) hx
    rw [map_newest xs first last hle] at hmem
    obtain ⟨p, hp, heq⟩ := List.mem_map.mp hmem
    exact ⟨p, (mem_newPlaces.mp hp).1, (mem_newPlaces.mp hp).2, heq⟩
  have hnew : ∀ x ∈ newest xs (max first' last) last', key x ∉ m.seen := by
    intro x hx hseen
    obtain ⟨p, hp, hp', heq⟩ := hplace _ _ hlength x hx
    obtain ⟨q, hq, heq'⟩ := (h.mem_seen (key x)).mp hseen
    have hpq := getElem?_inj_of_nodup hkeys (by rw [List.length_map]; omega)
      (heq.trans heq'.symm)
    have := h.lt q hq
    omega
  have hold : ∀ x ∈ newest xs first' (max first' last), key x ∈ m.seen := by
    intro x hx
    obtain ⟨p, hp, hp', heq⟩ := hplace _ _ (by omega) x hx
    exact (h.mem_seen (key x)).mpr ⟨p, h.window p (by omega) (by omega), heq⟩
  have hkeysNew : (newest xs (max first' last) last').map key =
      ((((xs.map key).take last').drop (max first' last))).reverse := by
    rw [newest, List.map_reverse, List.map_drop, List.map_take]
  have hnodup : ((newest xs (max first' last) last').map key).Nodup := by
    rw [hkeysNew, List.nodup_reverse]
    exact (hkeys.sublist (List.take_sublist _ _)).sublist (List.drop_sublist _ _)
  rw [newest_split xs hmid (le_max_left _ _), retain_new hnew hnodup]
  simp only
  rw [retain_seen fun x hx => Finset.mem_union_left _ (hold x hx)]
  refine ⟨List.append_nil _, ?_⟩
  constructor
  · rw [h.seen, List.toFinset_append]
  · rw [List.map_append, List.map_append, h.order, List.map_map, ← map_newest xs _ _ hlength]
    rfl
  · refine List.nodup_append.mpr ⟨h.nodup, ?_, fun p hp q hq heq => ?_⟩
    · exact List.nodup_reverse.mpr List.nodup_range'
    · have := h.lt p hp
      have := mem_newPlaces.mp hq
      omega
  · intro p hp
    rcases List.mem_append.mp hp with hp | hp
    · exact Nat.lt_of_lt_of_le (h.lt p hp) hlast
    · exact (mem_newPlaces.mp hp).2
  · refine List.pairwise_append.mpr ⟨h.close, ?_, fun p hp q hq => ?_⟩
    · refine List.pairwise_of_forall_mem_list fun p hp q hq => ?_
      have := mem_newPlaces.mp hp
      have := mem_newPlaces.mp hq
      omega
    · have := h.lt p hp
      have := mem_newPlaces.mp hq
      omega
  · intro p hp hp'
    rw [List.mem_append, mem_newPlaces]
    by_cases hlt : p < last
    · exact .inl (h.window p (by omega) hlt)
    · exact .inr ⟨by omega, hp'⟩
  · rw [List.length_map]
    exact hlength

theorem trim_remembers (hkeys : keys.Nodup) (h : Remembers keys width m first last ps)
    (hwidth : last - first ≤ width) {bound n : Nat} (hbound : n + 2 * width ≤ bound) :
    ∃ ps', Remembers keys width (m.trim bound n) first last ps' := by
  rw [trim]
  split_ifs with hfull
  swap
  · exact ⟨ps, h⟩
  have hnodup := h.order_nodup hkeys
  have hlength : m.order.length = ps.length := by
    have := congrArg List.length h.order
    rwa [List.length_map, List.length_map] at this
  rw [evict_eq n hnodup h.seen]
  refine ⟨ps.drop n, rfl, ?_, h.nodup.sublist (List.drop_sublist _ _),
    fun p hp => h.lt p (List.mem_of_mem_drop hp), h.close.sublist (List.drop_sublist _ _),
    fun p hp hp' => ?_, h.bounded⟩
  · rw [List.map_drop, h.order, List.map_drop]
  · have hmem := h.window p hp hp'
    rw [← List.take_append_drop n ps, List.mem_append] at hmem
    refine hmem.resolve_left fun htake => ?_
    -- all that is kept came after the place and would have to fit behind it
    have hclose := h.close
    rw [← List.take_append_drop n ps, List.pairwise_append] at hclose
    have hsub : (ps.drop n).toFinset ⊆ Finset.Ico (p + 1 - width) last := by
      intro q hq
      rw [List.mem_toFinset] at hq
      have := hclose.2.2 p htake q hq
      have := h.lt q (List.mem_of_mem_drop hq)
      rw [Finset.mem_Ico]
      omega
    have hcard := Finset.card_le_card hsub
    rw [List.toFinset_card_of_nodup (h.nodup.sublist (List.drop_sublist _ _)), Nat.card_Ico,
      List.length_drop] at hcard
    rw [h.seen, List.toFinset_card_of_nodup hnodup, hlength] at hfull
    omega

end KeyMemory

end Collections
end CmTrace
