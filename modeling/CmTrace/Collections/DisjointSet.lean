import Mathlib

/-!
# Disjoint sets

A forest of parents.  A search for a root is given fuel, of which it needs no more
than there have been unions; and two elements have one root when a chain of
unions joins them.
-/

namespace CmTrace
namespace Collections

variable {A : Type} [DecidableEq A]

structure DisjointSet (A : Type) where
  parent : A → Option A

namespace DisjointSet

def empty : DisjointSet A := { parent := fun _ => none }

def set (s : DisjointSet A) (a root : A) : DisjointSet A :=
  { parent := fun x => if x = a then some root else s.parent x }

def rootFrom (s : DisjointSet A) : Nat → A → A
  | 0, a => a
  | fuel + 1, a => match s.parent a with
    | none => a
    | some next => if next = a then a else s.rootFrom fuel next

def find (fuel : Nat) (s : DisjointSet A) (a : A) : A × DisjointSet A :=
  let root := s.rootFrom fuel a
  (root, s.set a root)

def union (fuel : Nat) (s : DisjointSet A) (a b : A) : DisjointSet A :=
  let rootA := s.find fuel a
  let rootB := rootA.2.find fuel b
  if rootA.1 = rootB.1 then rootB.2 else rootB.2.set rootA.1 rootB.1

def IsRoot (s : DisjointSet A) (a : A) : Prop := s.parent a = none ∨ s.parent a = some a

/-- The root of every element is `root`, and is no more than `n` parents away. -/
structure Represents (s : DisjointSet A) (root : A → A) (depth : A → Nat) (n : Nat) : Prop where
  bounded : ∀ a, depth a ≤ n
  parent : ∀ a p, s.parent a = some p → p ≠ a → depth p < depth a ∧ root p = root a
  root : ∀ a, s.IsRoot a → root a = a ∧ depth a = 0

section

variable {s : DisjointSet A} {root : A → A} {depth : A → Nat} {n : Nat}

theorem isRoot_or_parent (s : DisjointSet A) (a : A) :
    s.IsRoot a ∨ ∃ p, s.parent a = some p ∧ p ≠ a := by
  cases hp : s.parent a with
  | none => exact .inl (.inl hp)
  | some p =>
    by_cases hpa : p = a
    · exact .inl (.inr (hpa ▸ hp))
    · exact .inr ⟨p, rfl, hpa⟩

theorem Represents.rootFrom (h : Represents s root depth n) : ∀ {fuel : Nat} {a : A},
    depth a ≤ fuel → s.rootFrom fuel a = root a
  | 0, a, ha => by
    rcases isRoot_or_parent s a with hroot | ⟨p, hp, hne⟩
    · exact (h.root a hroot).1.symm
    · have := (h.parent a p hp hne).1
      omega
  | fuel + 1, a, ha => by
    rw [DisjointSet.rootFrom]
    cases hp : s.parent a with
    | none => exact (h.root a (.inl hp)).1.symm
    | some p =>
      dsimp only
      by_cases hne : p = a
      · rw [if_pos hne]
        exact (h.root a (.inr (hne ▸ hp))).1.symm
      · obtain ⟨hlt, hroot⟩ := h.parent a p hp hne
        rw [if_neg hne, h.rootFrom (by omega), hroot]

theorem Represents.isRoot_root (h : Represents s root depth n) (a : A) : s.IsRoot (root a) := by
  induction hd : depth a using Nat.strong_induction_on generalizing a with
  | _ d ih =>
    rcases isRoot_or_parent s a with hroot | ⟨p, hp, hne⟩
    · rwa [(h.root a hroot).1]
    · obtain ⟨hlt, hsame⟩ := h.parent a p hp hne
      rw [← hsame]
      exact ih (depth p) (hd ▸ hlt) p rfl

theorem Represents.root_root (h : Represents s root depth n) (a : A) : root (root a) = root a :=
  (h.root _ (h.isRoot_root a)).1

theorem Represents.set_root (h : Represents s root depth n) (a : A) :
    Represents (s.set a (root a)) root depth n := by
  have hparent : ∀ x, (s.set a (root a)).parent x = if x = a then some (root a) else s.parent x :=
    fun _ => rfl
  refine ⟨h.bounded, fun x p hp hne => ?_, fun x hx => ?_⟩
  · rw [hparent] at hp
    by_cases hxa : x = a
    · rw [if_pos hxa, Option.some_inj] at hp
      subst hxa hp
      refine ⟨?_, h.root_root x⟩
      rw [(h.root _ (h.isRoot_root x)).2]
      rcases isRoot_or_parent s x with hroot | ⟨p, hp, hpne⟩
      · exact absurd (h.root x hroot).1 hne
      · exact Nat.zero_lt_of_lt (h.parent x p hp hpne).1
    · rw [if_neg hxa] at hp
      exact h.parent x p hp hne
  · rw [IsRoot, hparent] at hx
    by_cases hxa : x = a
    · subst hxa
      rw [if_pos rfl, or_iff_right (Option.some_ne_none _), Option.some_inj] at hx
      exact ⟨hx, by rw [← hx]; exact (h.root _ (h.isRoot_root x)).2⟩
    · rw [if_neg hxa] at hx
      exact h.root x hx

theorem Represents.find (h : Represents s root depth n) {fuel : Nat} (hfuel : n ≤ fuel) (a : A) :
    (s.find fuel a).1 = root a ∧ Represents (s.find fuel a).2 root depth n := by
  have hroot := h.rootFrom ((h.bounded a).trans hfuel)
  rw [DisjointSet.find]
  dsimp only
  rw [hroot]
  exact ⟨rfl, h.set_root a⟩

def joined (root : A → A) (a b x : A) : A := if root x = root a then root b else root x

def deepened (root : A → A) (depth : A → Nat) (a x : A) : Nat :=
  if root x = root a then depth x + 1 else depth x

theorem Represents.union (h : Represents s root depth n) {fuel : Nat} (hfuel : n ≤ fuel) (a b : A) :
    ∃ depth', Represents (s.union fuel a b) (joined root a b) depth' (n + 1) := by
  obtain ⟨hrootA, hfindA⟩ := h.find hfuel a
  obtain ⟨hrootB, hfindB⟩ := hfindA.find hfuel b
  rw [DisjointSet.union, hrootA, hrootB]
  generalize ((s.find fuel a).2.find fuel b).2 = s' at hfindB
  by_cases hsame : root a = root b
  · have hjoined : joined root a b = root := by
      funext x
      rw [joined]
      split
      · rename_i hx
        rw [hx, hsame]
      · rfl
    rw [if_pos hsame, hjoined]
    exact ⟨depth, fun x => (hfindB.bounded x).trans (Nat.le_succ n), hfindB.parent, hfindB.root⟩
  · rw [if_neg hsame]
    have hparent : ∀ x, (s'.set (root a) (root b)).parent x =
        if x = root a then some (root b) else s'.parent x := fun _ => rfl
    refine ⟨deepened root depth a, fun x => ?_, fun x p hp hne => ?_, fun x hx => ?_⟩
    · have := hfindB.bounded x
      rw [deepened]
      split <;> omega
    · rw [hparent] at hp
      by_cases hxa : x = root a
      · rw [if_pos hxa, Option.some_inj] at hp
        subst hxa hp
        rw [deepened, deepened, joined, joined, hfindB.root_root, hfindB.root_root, if_pos rfl,
          if_neg (Ne.symm hsame), if_pos rfl, if_neg (Ne.symm hsame),
          (hfindB.root _ (hfindB.isRoot_root b)).2]
        exact ⟨Nat.succ_pos _, rfl⟩
      · rw [if_neg hxa] at hp
        obtain ⟨hlt, hroot⟩ := hfindB.parent x p hp hne
        rw [deepened, deepened, joined, joined, hroot]
        refine ⟨?_, rfl⟩
        split <;> omega
    · rw [IsRoot, hparent] at hx
      by_cases hxa : x = root a
      · subst hxa
        rw [if_pos rfl, or_iff_right (Option.some_ne_none _), Option.some_inj] at hx
        exact absurd hx.symm hsame
      · rw [if_neg hxa] at hx
        obtain ⟨hroot, hdepth⟩ := hfindB.root x hx
        rw [deepened, joined, hroot, if_neg hxa, if_neg hxa]
        exact ⟨rfl, hdepth⟩

end

omit [DecidableEq A] in
theorem represents_empty : Represents (empty : DisjointSet A) id (fun _ => 0) 0 :=
  ⟨fun _ => Nat.le_refl 0, fun _ _ hp => (by cases hp), fun _ _ => ⟨rfl, rfl⟩⟩

/-! ## Unions of links -/

def Joined (links : List (A × A)) : A → A → Prop := Relation.EqvGen fun x y => (x, y) ∈ links

theorem joined_iff {root : A → A} {links : List (A × A)}
    (h : ∀ x y, root x = root y ↔ Joined links x y) (a b x y : A) :
    joined root a b x = joined root a b y ↔ Joined (links ++ [(a, b)]) x y := by
  have hmono : ∀ {x y}, Joined links x y → Joined (links ++ [(a, b)]) x y := fun hxy =>
    Relation.EqvGen.mono (fun _ _ hmem => List.mem_append_left _ hmem) _ _ hxy
  have hnew : Joined (links ++ [(a, b)]) a b :=
    .rel _ _ (List.mem_append_right _ (List.mem_singleton_self _))
  have hof : ∀ {x y}, root x = root y → Joined (links ++ [(a, b)]) x y := fun hxy =>
    hmono ((h _ _).mp hxy)
  constructor
  · intro hxy
    rw [joined, joined] at hxy
    split at hxy <;> split at hxy
    · rename_i hx hy
      exact hof (hx.trans hy.symm)
    · rename_i hx _
      exact ((hof hx).trans _ _ _ hnew).trans _ _ _ (hof hxy)
    · rename_i _ hy
      exact ((hof hxy).trans _ _ _ (hnew.symm _ _)).trans _ _ _ (hof hy.symm)
    · exact hof hxy
  · intro hxy
    induction hxy with
    | rel x y hmem =>
      rcases List.mem_append.mp hmem with hmem | hmem
      · rw [joined, joined, (h x y).mpr (.rel _ _ hmem)]
      · obtain ⟨rfl, rfl⟩ := Prod.mk.inj (List.mem_singleton.mp hmem)
        rw [joined, joined, if_pos rfl]
        split <;> rfl
    | refl x => rfl
    | symm x y _ ih => exact ih.symm
    | trans x y z _ _ ih ih' => exact ih.trans ih'

def unions (fuel : Nat) (s : DisjointSet A) (links : List (A × A)) : DisjointSet A :=
  links.foldl (fun s link => s.union fuel link.1 link.2) s

/-- After the unions of all links, elements have one root when a chain of links
joins them; no search has run out of fuel. -/
theorem represents_unions {fuel : Nat} {links : List (A × A)} (h : links.length ≤ fuel) :
    ∃ root depth, Represents (unions fuel empty links) root depth links.length ∧
      ∀ x y, root x = root y ↔ Joined links x y := by
  have hfold : ∀ (new done : List (A × A)) (s : DisjointSet A) root depth,
      done.length + new.length ≤ fuel → Represents s root depth done.length →
      (∀ x y, root x = root y ↔ Joined done x y) →
      ∃ root depth, Represents (unions fuel s new) root depth (done ++ new).length ∧
        ∀ x y, root x = root y ↔ Joined (done ++ new) x y := by
    intro new
    induction new with
    | nil =>
      intro done s root depth _ hs hroot
      exact ⟨root, depth, by rwa [List.append_nil], by rwa [List.append_nil]⟩
    | cons link new ih =>
      intro done s root depth hfuel hs hroot
      rw [List.length_cons] at hfuel
      obtain ⟨depth', hs'⟩ := hs.union (show done.length ≤ fuel by omega) link.1 link.2
      have hrest := ih (done ++ [link]) _ _ depth' (by rw [List.length_append, List.length_singleton]; omega)
        (by rwa [List.length_append, List.length_singleton]) fun x y => joined_iff hroot link.1 link.2 x y
      rwa [List.append_assoc, List.singleton_append] at hrest
  refine hfold links [] empty id (fun _ => 0) (by simpa using h) represents_empty fun x y => ?_
  constructor
  · rintro rfl
    exact .refl _
  · intro hxy
    induction hxy with
    | rel x y hmem => cases hmem
    | refl x => rfl
    | symm x y _ ih => exact ih.symm
    | trans x y z _ _ ih ih' => exact ih.trans ih'

end DisjointSet
end Collections
end CmTrace
