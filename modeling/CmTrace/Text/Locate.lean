import CmTrace.Text.Regex

/-!
# Matches in their places

An expression that does not look at the ends of a text matches a piece of it in the
same ways whatever stands around the piece.  A text is therefore searched piece by
piece, as long as no match crosses the end of a piece.
-/

namespace CmTrace

open Text

namespace Regex

/-- Nothing in the expression looks at the ends of the text. -/
def unanchored : Regex → Bool
  | .empty => true
  | .char _ => true
  | .seq a b => a.unanchored && b.unanchored
  | .alt a b => a.unanchored && b.unanchored
  | .star _ a => a.unanchored
  | .group _ a => a.unanchored
  | .begin => false
  | .stop => false

/-! ## What a match takes -/

theorem rounds_append {greedy : Bool} {step : Bool → Text → List Match}
    (hstep : ∀ x s, ∀ m ∈ step x s, m.taken ++ m.rest = s) (fuel : Nat) (x : Bool) (s : Text) :
    ∀ m ∈ rounds greedy step fuel x s, m.taken ++ m.rest = s := by
  induction fuel generalizing x s with
  | zero =>
    intro m hm
    rw [rounds, List.mem_singleton] at hm
    rw [hm, List.nil_append]
  | succ fuel ih =>
    have hmore : ∀ m ∈ (step x s).flatMap fun m =>
        if m.taken = [] then [] else (rounds greedy step fuel false m.rest).map m.before,
        m.taken ++ m.rest = s := by
      intro m hm
      obtain ⟨first, hfirst, hm⟩ := List.mem_flatMap.mp hm
      split_ifs at hm with hempty
      · cases hm
      · obtain ⟨rest, hrest, rfl⟩ := List.mem_map.mp hm
        rw [Match.before, List.append_assoc, ih false first.rest rest hrest]
        exact hstep x s first hfirst
    intro m hm
    rw [rounds] at hm
    split_ifs at hm
    · rcases List.mem_append.mp hm with hm | hm
      · exact hmore m hm
      · rw [List.mem_singleton.mp hm, List.nil_append]
    · rcases List.mem_cons.mp hm with rfl | hm
      · exact List.nil_append s
      · exact hmore m hm

theorem prefixes_append (r : Regex) (x : Bool) (s : Text) :
    ∀ m ∈ r.prefixes x s, m.taken ++ m.rest = s := by
  induction r generalizing x s with
  | empty =>
    intro m hm
    rw [prefixes, List.mem_singleton] at hm
    rw [hm, List.nil_append]
  | char p =>
    intro m hm
    cases s with
    | nil => cases hm
    | cons c s =>
      rw [prefixes] at hm
      split_ifs at hm
      · rw [List.mem_singleton.mp hm, List.singleton_append]
      · cases hm
  | seq a b iha ihb =>
    intro m hm
    obtain ⟨first, hfirst, hm⟩ := List.mem_flatMap.mp hm
    obtain ⟨rest, hrest, rfl⟩ := List.mem_map.mp hm
    rw [Match.before, List.append_assoc, ihb _ first.rest rest hrest]
    exact iha x s first hfirst
  | alt a b iha ihb =>
    intro m hm
    rcases List.mem_append.mp hm with hm | hm
    · exact iha x s m hm
    · exact ihb x s m hm
  | star greedy a ih => exact rounds_append ih s.length x s
  | group n a ih =>
    intro m hm
    obtain ⟨inner, hinner, rfl⟩ := List.mem_map.mp hm
    exact ih x s inner hinner
  | begin =>
    intro m hm
    rw [prefixes] at hm
    split_ifs at hm
    · rw [List.mem_singleton.mp hm, List.nil_append]
    · cases hm
  | stop =>
    intro m hm
    rw [prefixes] at hm
    split_ifs at hm
    · rw [List.mem_singleton.mp hm, List.nil_append]
    · cases hm

theorem prefixes_atBegin {r : Regex} (hr : r.unanchored = true) (x y : Bool) (s : Text) :
    r.prefixes x s = r.prefixes y s := by
  induction r generalizing x y s with
  | empty => rfl
  | char p => cases s <;> rfl
  | seq a b iha ihb =>
    rw [unanchored, Bool.and_eq_true] at hr
    rw [prefixes, prefixes, iha hr.1 x y]
    refine List.flatMap_congr fun m _ => ?_
    rw [ihb hr.2]
  | alt a b iha ihb =>
    rw [unanchored, Bool.and_eq_true] at hr
    rw [prefixes, prefixes, iha hr.1 x y, ihb hr.2 x y]
  | star greedy a ih =>
    rw [prefixes, prefixes]
    cases s.length with
    | zero => rfl
    | succ fuel => rw [rounds, rounds, ih hr x y]
  | group n a ih => rw [prefixes, prefixes, ih hr x y]
  | begin => cases hr
  | stop => cases hr

/-! ## A text that goes on -/

def Match.onto (b : Text) (m : Match) : Match := { m with rest := m.rest ++ b }

theorem onto_before (b : Text) (m n : Match) : (m.before n).onto b = (m.onto b).before (n.onto b) := rfl

theorem filter_flatMap_map {α β γ : Type} {p : β → Bool} {q : α → Bool} {f : α → List β}
    {g : γ → α} {xs : List α} {ys : List γ} (hxs : xs.filter q = ys.map g)
    (hq : ∀ a ∈ xs, q a = false → (f a).filter p = []) :
    (xs.flatMap f).filter p = ys.flatMap fun y => (f (g y)).filter p := by
  have hfilter : (xs.flatMap f).filter p = (xs.filter q).flatMap fun a => (f a).filter p := by
    clear hxs
    induction xs with
    | nil => rfl
    | cons a xs ih =>
      rw [List.flatMap_cons, List.filter_append, ih fun a ha => hq a (List.mem_cons_of_mem _ ha)]
      cases ha : q a with
      | true => rw [List.filter_cons_of_pos ha, List.flatMap_cons]
      | false =>
        rw [List.filter_cons_of_neg (by rw [ha]; exact Bool.false_ne_true),
          hq a (List.mem_cons_self ..) ha, List.nil_append]
  rw [hfilter, hxs, List.flatMap_map]

theorem rounds_succ {greedy : Bool} {step : Bool → Text → List Match}
    (hstep : ∀ x s, ∀ m ∈ step x s, m.taken ++ m.rest = s) {fuel : Nat} {s : Text}
    (h : s.length ≤ fuel) (x : Bool) :
    rounds greedy step (fuel + 1) x s = rounds greedy step fuel x s := by
  induction fuel generalizing x s with
  | zero =>
    obtain rfl : s = [] := List.length_eq_zero_iff.mp (Nat.le_zero.mp h)
    have hmore : ((step x []).flatMap fun m =>
        if m.taken = [] then [] else (rounds greedy step 0 false m.rest).map m.before) = [] := by
      refine List.flatMap_eq_nil_iff.mpr fun m hm => ?_
      rw [if_pos (List.append_eq_nil_iff.mp (hstep x [] m hm)).1]
    rw [rounds, rounds, hmore, List.nil_append, ite_self]
  | succ fuel ih =>
    have hmore : ((step x s).flatMap fun m =>
          if m.taken = [] then [] else (rounds greedy step (fuel + 1) false m.rest).map m.before) =
        (step x s).flatMap fun m =>
          if m.taken = [] then [] else (rounds greedy step fuel false m.rest).map m.before := by
      refine List.flatMap_congr fun m hm => ?_
      split_ifs with hempty
      · rfl
      · have hlen := congrArg List.length (hstep x s m hm)
        have hpos := List.length_pos_iff.mpr hempty
        rw [List.length_append] at hlen
        rw [ih (by omega)]
    rw [rounds, rounds, hmore]

theorem rounds_of_le {greedy : Bool} {step : Bool → Text → List Match}
    (hstep : ∀ x s, ∀ m ∈ step x s, m.taken ++ m.rest = s) {fuel : Nat} {s : Text}
    (h : s.length ≤ fuel) (x : Bool) :
    rounds greedy step fuel x s = rounds greedy step s.length x s := by
  induction fuel, h using Nat.le_induction with
  | base => rfl
  | succ fuel h ih => rw [rounds_succ hstep h, ih]

theorem mem_star {greedy : Bool} {a : Regex} {x : Bool} {s : Text} {m : Match} :
    m ∈ (star greedy a).prefixes x s ↔
      m = { taken := [], rest := s } ∨
      ∃ first ∈ a.prefixes x s, first.taken ≠ [] ∧
        ∃ later ∈ (star greedy a).prefixes false first.rest, m = first.before later := by
  have hone : ∀ first ∈ a.prefixes x s, first.taken ≠ [] → first.rest.length + 1 ≤ s.length := by
    intro first hfirst htaken
    have hlen := congrArg List.length (prefixes_append a x s first hfirst)
    have hpos := List.length_pos_iff.mpr htaken
    rw [List.length_append] at hlen
    omega
  cases s with
  | nil =>
    rw [prefixes, List.length_nil, rounds, List.mem_singleton]
    constructor
    · exact Or.inl
    · rintro (hm | ⟨first, hfirst, htaken, -⟩)
      · exact hm
      · exact absurd (hone first hfirst htaken) (Nat.not_succ_le_zero _)
  | cons c s =>
    have hmore : m ∈ ((a.prefixes x (c :: s)).flatMap fun m =>
          if m.taken = [] then []
          else (rounds greedy a.prefixes s.length false m.rest).map m.before) ↔
        ∃ first ∈ a.prefixes x (c :: s), first.taken ≠ [] ∧
          ∃ later ∈ (star greedy a).prefixes false first.rest, m = first.before later := by
      rw [List.mem_flatMap]
      refine exists_congr fun first => and_congr_right fun hfirst => ?_
      by_cases htaken : first.taken = []
      · rw [if_pos htaken]
        exact ⟨fun h => absurd h List.not_mem_nil, fun h => absurd htaken h.1⟩
      · have hrounds := @rounds_of_le greedy a.prefixes (prefixes_append a) s.length first.rest
          (Nat.le_of_succ_le_succ (hone first hfirst htaken)) false
        rw [if_neg htaken, hrounds, List.mem_map]
        constructor
        · rintro ⟨later, hlater, rfl⟩
          exact ⟨htaken, later, hlater, rfl⟩
        · rintro ⟨-, later, hlater, rfl⟩
          exact ⟨later, hlater, rfl⟩
    rw [prefixes, List.length_cons, rounds, ← hmore]
    cases greedy with
    | true => rw [if_pos rfl, List.mem_append, List.mem_singleton, or_comm]
    | false => rw [if_neg Bool.false_ne_true, List.mem_cons]

theorem taken_star {greedy : Bool} {a : Regex} {P : Text → Prop} (hnil : P [])
    (hround : ∀ s, ∀ m ∈ a.prefixes false s, ∀ u, P u → P (m.taken ++ u)) (s : Text) :
    ∀ m ∈ (star greedy a).prefixes false s, P m.taken := by
  induction hlen : s.length using Nat.strong_induction_on generalizing s with
  | _ n ih =>
    intro m hm
    rcases mem_star.mp hm with rfl | ⟨first, hfirst, htaken, later, hlater, rfl⟩
    · exact hnil
    · have hfront := congrArg List.length (prefixes_append a false s first hfirst)
      have hpos := List.length_pos_iff.mpr htaken
      rw [List.length_append] at hfront
      exact hround s first hfirst _ (ih first.rest.length (by omega) first.rest rfl later hlater)

def Match.within (b : Text) (m : Match) : Bool := decide (b.length ≤ m.rest.length)

theorem filter_map_before (b : Text) (m : Match) (ns : List Match) :
    (ns.map m.before).filter (Match.within b) = (ns.filter (Match.within b)).map m.before := by
  rw [List.filter_map]
  rfl

theorem map_before_onto (b : Text) (m : Match) (ns : List Match) :
    (ns.map (Match.onto b)).map (m.onto b).before = (ns.map m.before).map (Match.onto b) := by
  rw [List.map_map, List.map_map]
  rfl

theorem filter_map_before_eq_nil {b : Text} {m : Match} (hm : m.within b = false) {ns : List Match}
    (hns : ∀ n ∈ ns, n.taken ++ n.rest = m.rest) :
    (ns.map m.before).filter (Match.within b) = [] := by
  rw [filter_map_before, List.map_eq_nil_iff, List.filter_eq_nil_iff]
  intro n hn hwithin
  have hlen := congrArg List.length (hns n hn)
  rw [List.length_append] at hlen
  have hlt : ¬ b.length ≤ m.rest.length := of_decide_eq_false hm
  have hle : b.length ≤ n.rest.length := of_decide_eq_true hwithin
  omega

theorem rounds_onto {greedy : Bool} {step : Bool → Text → List Match} (b : Text)
    (hstep : ∀ x s, ∀ m ∈ step x s, m.taken ++ m.rest = s)
    (honto : ∀ x a, (step x (a ++ b)).filter (Match.within b) = (step x a).map (Match.onto b))
    {fuel : Nat} {a : Text} (h : (a ++ b).length ≤ fuel) (x : Bool) :
    (rounds greedy step fuel x (a ++ b)).filter (Match.within b) =
      (rounds greedy step fuel x a).map (Match.onto b) := by
  induction fuel generalizing x a with
  | zero =>
    have hnil := List.append_eq_nil_iff.mp (List.length_eq_zero_iff.mp (Nat.le_zero.mp h))
    rw [hnil.1, hnil.2]
    rfl
  | succ fuel ih =>
    have hmore : ((step x (a ++ b)).flatMap fun m =>
          if m.taken = [] then [] else (rounds greedy step fuel false m.rest).map m.before).filter
          (Match.within b) =
        ((step x a).flatMap fun m =>
          if m.taken = [] then [] else
            (rounds greedy step fuel false m.rest).map m.before).map (Match.onto b) := by
      rw [filter_flatMap_map (honto x a), List.map_flatMap]
      · refine List.flatMap_congr fun m hm => ?_
        rw [show (m.onto b).taken = m.taken from rfl, show (m.onto b).rest = m.rest ++ b from rfl]
        by_cases hempty : m.taken = []
        · rw [if_pos hempty, if_pos hempty]
          rfl
        · rw [if_neg hempty, if_neg hempty, filter_map_before]
          have hlen := congrArg List.length (hstep x a m hm)
          have hpos := List.length_pos_iff.mpr hempty
          rw [List.length_append] at h hlen
          rw [ih (by rw [List.length_append]; omega), map_before_onto]
      · intro m hm hout
        split_ifs
        · rfl
        · exact filter_map_before_eq_nil hout (rounds_append hstep fuel false m.rest)
    have hdone : Match.within b { taken := [], rest := a ++ b } = true := by
      rw [Match.within, decide_eq_true_eq, List.length_append]
      omega
    rw [rounds, rounds]
    split_ifs
    · rw [List.filter_append, hmore, List.filter_cons_of_pos hdone, List.map_append]
      rfl
    · rw [List.filter_cons_of_pos hdone, hmore]
      rfl

/-- The ways to match within the beginning of a text are the ways to match the
beginning, in the same order of preference. -/
theorem prefixes_onto {r : Regex} (hr : r.unanchored = true) (x : Bool) (a b : Text) :
    (r.prefixes x (a ++ b)).filter (Match.within b) = (r.prefixes x a).map (Match.onto b) := by
  induction r generalizing x a with
  | empty =>
    rw [prefixes, prefixes, List.filter_cons_of_pos]
    · rfl
    · rw [Match.within, decide_eq_true_eq, List.length_append]
      omega
  | char p =>
    cases a with
    | nil =>
      rw [List.nil_append]
      refine (List.filter_eq_nil_iff.mpr fun m hm hwithin => ?_).trans rfl
      cases b with
      | nil => cases hm
      | cons c b =>
        rw [prefixes] at hm
        split_ifs at hm
        · rw [List.mem_singleton.mp hm, Match.within, decide_eq_true_eq] at hwithin
          exact absurd hwithin (Nat.not_succ_le_self b.length)
        · cases hm
    | cons c a =>
      rw [List.cons_append, prefixes, prefixes]
      split_ifs
      · rw [List.filter_cons_of_pos]
        · rfl
        · rw [Match.within, decide_eq_true_eq, List.length_append]
          omega
      · rfl
  | seq a' b' iha ihb =>
    rw [unanchored, Bool.and_eq_true] at hr
    rw [prefixes, prefixes, filter_flatMap_map (iha hr.1 x a), List.map_flatMap]
    · refine List.flatMap_congr fun m _ => ?_
      rw [filter_map_before, show (m.onto b).rest = m.rest ++ b from rfl, ihb hr.2,
        map_before_onto]
      rfl
    · intro m _ hout
      exact filter_map_before_eq_nil hout (prefixes_append b' _ m.rest)
  | alt a' b' iha ihb =>
    rw [unanchored, Bool.and_eq_true] at hr
    rw [prefixes, prefixes, List.filter_append, iha hr.1, ihb hr.2, List.map_append]
  | star greedy a' ih =>
    rw [prefixes, prefixes, rounds_onto b (prefixes_append a') (ih hr) (Nat.le_refl _),
      rounds_of_le (prefixes_append a') (by rw [List.length_append]; omega)]
  | group n a' ih =>
    rw [prefixes, prefixes, List.filter_map, List.map_map]
    have hinner := congrArg (List.map fun m : Match => { m with groups := (n, m.taken) :: m.groups })
      (ih hr x a)
    rw [List.map_map] at hinner
    exact hinner
  | begin => cases hr
  | stop => cases hr

/-! ## Searching -/

/-- The leftmost match, with the text before it. -/
def locate (r : Regex) : Text → Option (Text × Match)
  | [] => (r.prefixes false []).head?.map (Prod.mk [])
  | c :: s => match (r.prefixes false (c :: s)).head? with
    | some m => some ([], m)
    | none => (r.locate s).map fun found => (c :: found.1, found.2)

def Taking (r : Regex) : Prop := r.prefixes false [] = []

theorem locate_append {r : Regex} {s : Text} {found : Text × Match} (h : r.locate s = some found) :
    found.1 ++ found.2.taken ++ found.2.rest = s := by
  induction s generalizing found with
  | nil =>
    obtain ⟨m, hm, rfl⟩ := Option.map_eq_some_iff.mp h
    exact prefixes_append r false [] m (List.mem_of_head? hm)
  | cons c s ih =>
    rw [locate] at h
    cases hhead : (r.prefixes false (c :: s)).head? with
    | some m =>
      rw [hhead] at h
      obtain rfl := Option.some.inj h
      exact prefixes_append r false (c :: s) m (List.mem_of_head? hhead)
    | none =>
      rw [hhead] at h
      obtain ⟨rest, hrest, rfl⟩ := Option.map_eq_some_iff.mp h
      rw [List.cons_append, List.cons_append, ih hrest]

theorem locate_head {r : Regex} {s : Text} {found : Text × Match} (h : r.locate s = some found) :
    (r.prefixes false (found.2.taken ++ found.2.rest)).head? = some found.2 := by
  induction s generalizing found with
  | nil =>
    obtain ⟨m, hm, rfl⟩ := Option.map_eq_some_iff.mp h
    rwa [prefixes_append r false [] m (List.mem_of_head? hm)]
  | cons c s ih =>
    rw [locate] at h
    cases hhead : (r.prefixes false (c :: s)).head? with
    | some m =>
      rw [hhead] at h
      obtain rfl := Option.some.inj h
      rwa [prefixes_append r false (c :: s) m (List.mem_of_head? hhead)]
    | none =>
      rw [hhead] at h
      obtain ⟨rest, hrest, rfl⟩ := Option.map_eq_some_iff.mp h
      have hhead' := ih hrest
      exact hhead'

theorem findFrom_eq {r : Regex} (hr : r.unanchored = true) (x : Bool) (s : Text) :
    r.findFrom x s = (r.locate s).map Prod.snd := by
  induction s generalizing x with
  | nil =>
    rw [findFrom, locate, prefixes_atBegin hr x false]
    cases (r.prefixes false []).head? with
    | none => rfl
    | some _ => rfl
  | cons c s ih =>
    rw [findFrom, locate, prefixes_atBegin hr x false]
    cases (r.prefixes false (c :: s)).head? with
    | some _ => rfl
    | none =>
      rw [ih, Option.map_map]
      rfl

/-- Where a text that goes on is searched: its first match lies within the
beginning, or after it, or crosses its end; in the first two cases the beginning
is searched by itself. -/
theorem locate_cases {r : Regex} (hr : r.unanchored = true) (htaking : r.Taking) (a b : Text) :
    (∃ gap m, r.locate a = some (gap, m) ∧ r.locate (a ++ b) = some (gap, m.onto b)) ∨
    (r.locate a = none ∧ r.locate (a ++ b) = (r.locate b).map fun found => (a ++ found.1, found.2)) ∨
    ∃ gap a' m, a = gap ++ a' ∧ a' ≠ [] ∧ r.locate (a ++ b) = some (gap, m) ∧
      m.within b = false ∧ r.locate a = (r.locate a').map fun found => (gap ++ found.1, found.2) := by
  induction a with
  | nil =>
    refine .inr (.inl ⟨?_, ?_⟩)
    · rw [locate, htaking]
      rfl
    · rw [List.nil_append]
      cases r.locate b with
      | none => rfl
      | some _ => rfl
  | cons c a ih =>
    have honto := prefixes_onto hr false (c :: a) b
    rw [List.cons_append] at honto ⊢
    rw [locate, locate]
    cases hwhole : (r.prefixes false (c :: (a ++ b))).head? with
    | some m =>
      obtain ⟨others, hothers⟩ : ∃ others, r.prefixes false (c :: (a ++ b)) = m :: others :=
        List.head?_eq_some_iff.mp hwhole
      cases hwithin : m.within b with
      | true =>
        rw [hothers, List.filter_cons_of_pos hwithin] at honto
        obtain ⟨m', others', ha, hm', -⟩ := List.map_eq_cons_iff.mp honto.symm
        refine .inl ⟨[], m', ?_, ?_⟩
        · rw [ha]
          rfl
        · rw [hm']
      | false =>
        refine .inr (.inr ⟨[], c :: a, m, rfl, List.cons_ne_nil _ _, rfl, hwithin, ?_⟩)
        rw [← locate]
        cases r.locate (c :: a) with
        | none => rfl
        | some _ => rfl
    | none =>
      rw [List.head?_eq_none_iff.mp hwhole] at honto
      have hnone : r.prefixes false (c :: a) = [] := List.map_eq_nil_iff.mp honto.symm
      rw [hnone]
      dsimp only [List.head?_nil]
      rcases ih with ⟨gap, m, ha, hab⟩ | ⟨ha, hab⟩ | ⟨gap, a', m, rfl, hne, hab, hout, ha⟩
      · exact .inl ⟨c :: gap, m, by rw [ha]; rfl, by rw [hab]; rfl⟩
      · refine .inr (.inl ⟨by rw [ha]; rfl, ?_⟩)
        rw [hab, Option.map_map]
        rfl
      · refine .inr (.inr ⟨c :: gap, a', m, rfl, hne, by rw [hab]; rfl, hout, ?_⟩)
        rw [ha, Option.map_map]
        rfl

theorem taken_ne_nil {r : Regex} (hr : r.unanchored = true) (htaking : r.Taking) {s : Text}
    {m : Match} (hm : m ∈ r.prefixes false s) : m.taken ≠ [] := by
  intro hempty
  have honto := prefixes_onto hr false [] s
  rw [htaking, List.nil_append, List.map_nil, List.filter_eq_nil_iff] at honto
  have hrest := prefixes_append r false s m hm
  rw [hempty, List.nil_append] at hrest
  exact honto m hm (by rw [Match.within, hrest, decide_eq_true_eq])

theorem locate_rest_length {r : Regex} (hr : r.unanchored = true) (htaking : r.Taking) {s : Text}
    {found : Text × Match} (h : r.locate s = some found) : found.2.rest.length < s.length := by
  have hsplit := congrArg List.length (locate_append h)
  have htaken := List.length_pos_iff.mpr
    (taken_ne_nil hr htaking (List.mem_of_head? (locate_head h)))
  rw [List.length_append, List.length_append] at hsplit
  omega

theorem prefixes_of_locate_none {r : Regex} {s : Text} (h : r.locate s = none) (u v : Text)
    (huv : s = u ++ v) : r.prefixes false v = [] := by
  induction u generalizing s with
  | nil =>
    rw [List.nil_append] at huv
    subst huv
    cases s with
    | nil => exact List.head?_eq_none_iff.mp (Option.map_eq_none_iff.mp h)
    | cons c s =>
      rw [locate] at h
      cases hhead : (r.prefixes false (c :: s)).head? with
      | some m => rw [hhead] at h; cases h
      | none => exact List.head?_eq_none_iff.mp hhead
  | cons c u ih =>
    subst huv
    rw [List.cons_append, locate] at h
    cases hhead : (r.prefixes false (c :: (u ++ v))).head? with
    | some m => rw [hhead] at h; cases h
    | none =>
      rw [hhead] at h
      exact ih (Option.map_eq_none_iff.mp h) rfl

theorem locate_infix_none {r : Regex} (hr : r.unanchored = true) {a s b : Text}
    (h : r.locate (a ++ s ++ b) = none) : r.locate s = none := by
  cases hfound : r.locate s with
  | none => rfl
  | some found =>
    have hsplit := locate_append hfound
    have hnone := prefixes_of_locate_none h (a ++ found.1) (found.2.taken ++ found.2.rest ++ b)
      (by rw [← hsplit]; simp only [List.append_assoc])
    have honto := prefixes_onto hr false (found.2.taken ++ found.2.rest) b
    rw [hnone] at honto
    have hhead := locate_head hfound
    rw [List.map_eq_nil_iff.mp honto.symm] at hhead
    cases hhead

/-! ## Matches by line -/

/-- A match with the lines it begins and ends on. -/
structure Placed where
  first : Nat
  last : Nat
  taken : Text
  groups : List (Nat × Text)
  deriving DecidableEq, Repr

def Placed.group (p : Placed) (n : Nat) : Option Text := p.groups.lookup n

/-- A match that is found on line `line`, after `gap`. -/
def Placed.at (line : Nat) (gap : Text) (m : Match) : Placed :=
  let first := line + gap.count '\n'
  { first := first, last := first + m.taken.count '\n', taken := m.taken, groups := m.groups }

/-- Successive matches of a text that begins on line `line`. -/
def placeFrom (r : Regex) : Nat → Nat → Text → List Placed
  | 0, _, _ => []
  | fuel + 1, line, s => match r.locate s with
    | some (gap, m) =>
      let placed := Placed.at line gap m
      placed :: r.placeFrom fuel placed.last m.rest
    | none => []

def place (r : Regex) (line : Nat) (s : Text) : List Placed := r.placeFrom s.length line s

theorem placeFrom_succ {r : Regex} (hr : r.unanchored = true) (htaking : r.Taking) {fuel : Nat}
    {s : Text} (h : s.length ≤ fuel) (line : Nat) :
    r.placeFrom (fuel + 1) line s = r.placeFrom fuel line s := by
  induction fuel generalizing line s with
  | zero =>
    obtain rfl : s = [] := List.length_eq_zero_iff.mp (Nat.le_zero.mp h)
    have hnone : r.locate [] = none := by
      show (r.prefixes false []).head?.map (Prod.mk []) = none
      rw [htaking]
      rfl
    simp only [placeFrom, hnone]
  | succ fuel ih =>
    rw [placeFrom, placeFrom]
    cases hfound : r.locate s with
    | none => rfl
    | some found =>
      have hrest := locate_rest_length hr htaking hfound
      dsimp only
      rw [ih (by omega)]

theorem placeFrom_of_le {r : Regex} (hr : r.unanchored = true) (htaking : r.Taking) {fuel : Nat}
    {s : Text} (h : s.length ≤ fuel) (line : Nat) : r.placeFrom fuel line s = r.place line s := by
  induction fuel, h using Nat.le_induction with
  | base => rfl
  | succ fuel h ih => rw [placeFrom_succ hr htaking h, ih]

theorem place_eq {r : Regex} (hr : r.unanchored = true) (htaking : r.Taking) (line : Nat)
    (s : Text) :
    r.place line s = match r.locate s with
      | some (gap, m) => Placed.at line gap m :: r.place (Placed.at line gap m).last m.rest
      | none => [] := by
  rw [place, ← placeFrom_succ hr htaking (Nat.le_refl _), placeFrom]
  cases hfound : r.locate s with
  | none => rfl
  | some found =>
    dsimp only
    rw [placeFrom_of_le hr htaking (Nat.le_of_lt (locate_rest_length hr htaking hfound))]

theorem place_lines {r : Regex} (hr : r.unanchored = true) (htaking : r.Taking) (line : Nat)
    (s : Text) : ∀ p ∈ r.place line s, line ≤ p.first ∧ p.last ≤ line + s.count '\n' := by
  induction hs : s.length using Nat.strong_induction_on generalizing line s with
  | _ n ih =>
    rw [place_eq hr htaking]
    cases hfound : r.locate s with
    | none =>
      intro p hp
      cases hp
    | some found =>
      obtain ⟨gap, m⟩ := found
      have hsplit := congrArg (List.count '\n') (locate_append hfound)
      rw [List.count_append, List.count_append] at hsplit
      have hrest := locate_rest_length hr htaking hfound
      intro p hp
      rcases List.mem_cons.mp hp with rfl | hp
      · dsimp only [Placed.at]
        dsimp only at hsplit
        omega
      · have h := ih m.rest.length (hs ▸ hrest) (Placed.at line gap m).last m.rest rfl p hp
        dsimp only [Placed.at] at h
        dsimp only at hsplit
        omega

theorem place_shift {r : Regex} (hr : r.unanchored = true) (htaking : r.Taking) (line k : Nat)
    (s : Text) :
    r.place (line + k) s =
      (r.place line s).map fun p => { p with first := p.first + k, last := p.last + k } := by
  induction hs : s.length using Nat.strong_induction_on generalizing line s with
  | _ n ih =>
    rw [place_eq hr htaking, place_eq hr htaking line s]
    cases hfound : r.locate s with
    | none => rfl
    | some found =>
      have hrest := ih found.2.rest.length (hs ▸ locate_rest_length hr htaking hfound)
        (Placed.at line found.1 found.2).last found.2.rest rfl
      have hlast : (Placed.at (line + k) found.1 found.2).last =
          (Placed.at line found.1 found.2).last + k := by
        dsimp only [Placed.at]
        omega
      dsimp only
      rw [hlast, hrest, List.map_cons]
      refine congrArg (List.cons · _) ?_
      simp only [Placed.at, Placed.mk.injEq, and_true]
      omega

def Solid (r : Regex) : Prop := ∀ s, r.prefixes false ('\n' :: s) = []

theorem locate_newline {r : Regex} (hsolid : r.Solid) (b : Text) :
    r.locate ('\n' :: b) = (r.locate b).map fun found => ('\n' :: found.1, found.2) := by
  rw [locate, hsolid b]
  rfl

def Placed.Crosses (k : Nat) (p : Placed) : Prop := p.first ≤ k ∧ k < p.last

/-- A text that is searched in two pieces, of which the first is `j` and ends with
a line feed: either no match crosses its last line, and the pieces have the
matches; or the matches of the first piece agree up to the first match that does,
which begins where a rest `a` of the piece does. -/
theorem place_split {r : Regex} (hr : r.unanchored = true) (htaking : r.Taking)
    (hsolid : r.Solid) (line : Nat) (j b : Text) :
    r.place line (j ++ '\n' :: b) =
        r.place line j ++ r.place (line + j.count '\n' + 1) b ∨
      ∃ before after a m at', r.place line (j ++ '\n' :: b) = before ++ Placed.at at' [] m :: after ∧
        r.place line j = before ++ r.place at' a ∧
        (Placed.at at' [] m).Crosses (line + j.count '\n') ∧
        (r.prefixes false (a ++ '\n' :: b)).head? = some m ∧ m.within ('\n' :: b) = false := by
  induction hj : j.length using Nat.strong_induction_on generalizing line j with
  | _ n ih =>
    rcases locate_cases hr htaking j ('\n' :: b) with
      ⟨gap, m, hpiece, hwhole⟩ | ⟨hpiece, hwhole⟩ | ⟨gap, a, m, rfl, -, hwhole, hout, hpiece⟩
    · have hsplit := congrArg (List.count '\n') (locate_append hpiece)
      rw [List.count_append, List.count_append] at hsplit
      have hline : (Placed.at line gap m).last + m.rest.count '\n' = line + j.count '\n' := by
        dsimp only [Placed.at]
        dsimp only at hsplit
        omega
      have hrest := ih m.rest.length (hj ▸ locate_rest_length hr htaking hpiece)
        (Placed.at line gap m).last m.rest rfl
      rw [place_eq hr htaking, hwhole, place_eq hr htaking line j, hpiece]
      dsimp only
      rw [show Placed.at line gap (m.onto ('\n' :: b)) = Placed.at line gap m from rfl,
        show (m.onto ('\n' :: b)).rest = m.rest ++ '\n' :: b from rfl]
      rw [hline] at hrest
      rcases hrest with hrest | ⟨before, after, a, m', at', hplace, hpiece', hcross⟩
      · left
        rw [hrest, List.cons_append]
      · right
        exact ⟨Placed.at line gap m :: before, after, a, m', at', by rw [hplace]; rfl,
          by rw [hpiece']; rfl, hcross⟩
    · left
      rw [place_eq hr htaking line j, hpiece, List.nil_append, place_eq hr htaking, hwhole,
        locate_newline hsolid, place_eq hr htaking _ b]
      cases r.locate b with
      | none => rfl
      | some found =>
        have hat : Placed.at line (j ++ '\n' :: found.1) found.2 =
            Placed.at (line + j.count '\n' + 1) found.1 found.2 := by
          simp only [Placed.at, List.count_append, List.count_cons_self]
          simp only [Nat.add_assoc, Nat.add_comm 1]
        dsimp only [Option.map_some]
        rw [hat]
    · right
      have hhead := locate_head hwhole
      have hsplit := locate_append hwhole
      rw [List.append_assoc, List.append_assoc, List.append_cancel_left_eq] at hsplit
      dsimp only at hhead hsplit
      refine ⟨[], r.place (Placed.at line gap m).last m.rest, a, m, line + gap.count '\n', ?_, ?_, ?_,
        hsplit ▸ hhead, hout⟩
      · rw [place_eq hr htaking, hwhole]
        rfl
      · rw [List.nil_append, place_eq hr htaking line, hpiece, place_eq hr htaking _ a]
        cases r.locate a with
        | none => rfl
        | some found =>
          have hat : Placed.at line (gap ++ found.1) found.2 =
              Placed.at (line + gap.count '\n') found.1 found.2 := by
            simp only [Placed.at, List.count_append, Nat.add_assoc]
          dsimp only [Option.map_some]
          rw [hat]
      · -- what the match takes goes beyond `a`, so it takes the line feed
        have hlt : m.rest.length < ('\n' :: b).length := Nat.not_le.mp (of_decide_eq_false hout)
        obtain ⟨x, htaken, hx⟩ : ∃ x, m.taken = a ++ x ∧ '\n' :: b = x ++ m.rest := by
          rcases List.append_eq_append_iff.mp hsplit with ⟨x, ha, hx⟩ | ⟨x, htaken, hx⟩
          · rw [hx, List.length_append] at hlt
            omega
          · exact ⟨x, htaken, hx⟩
        obtain ⟨x', rfl⟩ : ∃ x', x = '\n' :: x' := by
          cases x with
          | nil =>
            rw [List.nil_append] at hx
            rw [hx] at hlt
            exact absurd hlt (Nat.lt_irrefl _)
          | cons c x' =>
            rw [List.cons_append] at hx
            exact ⟨x', by rw [(List.cons.inj hx).1]⟩
        dsimp only [Placed.Crosses, Placed.at]
        rw [htaken, List.count_append, List.count_append, List.count_cons_self, List.count_nil]
        omega

end Regex
end CmTrace
