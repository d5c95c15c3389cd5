import CmTrace.Text.Returns

/-!
# Expressions that match in one way

A repetition that takes as much as it can may also take less, but then what follows
it stands before a character of the repetition.  When what follows does not begin
with such a character, the whole matches in one way at most.
-/

namespace CmTrace

open Text

namespace Regex

def Single (r : Regex) : Prop := ∀ s, (r.prefixes false s).length ≤ 1

/-- A text that begins with a character of the class. -/
def before (p : Char → Bool) (s : Text) : Bool := s.head?.any p

/-- At most one way that is not left before a character of the class. -/
def Settled (r : Regex) (p : Char → Bool) : Prop :=
  ∀ s, ((r.prefixes false s).filter fun m => !before p m.rest).length ≤ 1

/-- What the expression matches begins with a character of the class. -/
def Begins (r : Regex) (p : Char → Bool) : Prop :=
  ∀ s, r.prefixes false s ≠ [] → before p s = true

theorem Single.settled {r : Regex} (h : Single r) (p : Char → Bool) : Settled r p :=
  fun s => (List.length_filter_le _ _).trans (h s)

theorem Settled.mono {r : Regex} {p q : Char → Bool} (h : Settled r q)
    (hqp : ∀ c, q c = true → p c = true) : Settled r p := by
  intro s
  refine le_trans (List.Sublist.length_le (List.monotone_filter_right _ fun m hm => ?_)) (h s)
  rw [Bool.not_eq_true'] at hm ⊢
  rw [← Bool.not_eq_true, before, Option.any_eq_true] at hm ⊢
  exact fun ⟨c, hc, hqc⟩ => hm ⟨c, hc, hqp c hqc⟩

theorem Runs.settled {r : Regex} {p : Char → Bool} {whole : Text → List Match} (h : Runs r p whole)
    (hwhole : ∀ s, (whole s).length ≤ 1) : Settled r p := by
  intro s
  obtain ⟨more, hprefixes, hmore⟩ := h s
  have hnone : (more.filter fun m => !before p m.rest) = [] := by
    refine List.filter_eq_nil_iff.mpr fun m hm => ?_
    obtain ⟨c, t, hrest, hc⟩ := hmore m hm
    rw [hrest, before, List.head?_cons, Option.any_some, hc]
    exact Bool.false_ne_true
  rw [hprefixes, List.filter_append, hnone, List.append_nil]
  exact (List.length_filter_le _ _).trans (hwhole s)

theorem settled_group {r : Regex} {p : Char → Bool} (h : Settled r p) (n : Nat) :
    Settled (.group n r) p := by
  intro s
  rw [prefixes, List.filter_map, List.length_map]
  exact h s

theorem length_flatMap_le_one {α β : Type} {xs : List α} {f : α → List β} {q : α → Bool}
    (hq : ∀ x ∈ xs, q x = false → f x = []) (hf : ∀ x ∈ xs, (f x).length ≤ 1)
    (hxs : (xs.filter q).length ≤ 1) : (xs.flatMap f).length ≤ 1 := by
  have hbound : (xs.flatMap f).length ≤ (xs.filter q).length := by
    clear hxs
    induction xs with
    | nil => exact Nat.le_refl _
    | cons x xs ih =>
      have hrest := ih (fun y hy => hq y (List.mem_cons_of_mem _ hy))
        (fun y hy => hf y (List.mem_cons_of_mem _ hy))
      have hhead := hf x (List.mem_cons_self ..)
      rw [List.flatMap_cons, List.length_append]
      cases hx : q x with
      | true =>
        rw [List.filter_cons_of_pos hx, List.length_cons]
        omega
      | false =>
        rw [hq x (List.mem_cons_self ..) hx, List.filter_cons_of_neg (by rw [hx]; exact Bool.false_ne_true),
          List.length_nil]
        omega
  exact hbound.trans hxs

theorem single_seq {r k : Regex} {p : Char → Bool} (hr : Settled r p) (hk : Single k)
    (hblocked : Blocked k p) : Single (.seq r k) := by
  intro s
  rw [prefixes]
  refine length_flatMap_le_one (q := fun m => !before p m.rest) (fun m _ hm => ?_) (fun m _ => ?_)
    (hr s)
  · rw [Bool.not_eq_false', before, Option.any_eq_true] at hm
    obtain ⟨c, hc, hpc⟩ := hm
    obtain ⟨t, ht⟩ := List.head?_eq_some_iff.mp hc
    rw [Bool.false_and, ht, hblocked c t hpc]
    rfl
  · rw [Bool.false_and, List.length_map]
    exact hk m.rest

theorem settled_seq {r k : Regex} {p q : Char → Bool} (hr : Settled r q) (hk : Settled k p)
    (hleft : ∀ c s, q c = true → ∀ m ∈ k.prefixes false (c :: s), before p m.rest = true) :
    Settled (.seq r k) p := by
  intro s
  rw [prefixes, List.filter_flatMap]
  refine length_flatMap_le_one (q := fun m => !before q m.rest) (fun m _ hm => ?_) (fun m _ => ?_)
    (hr s)
  · rw [Bool.not_eq_false', before, Option.any_eq_true] at hm
    obtain ⟨c, hc, hqc⟩ := hm
    obtain ⟨t, ht⟩ := List.head?_eq_some_iff.mp hc
    rw [Bool.false_and, ht]
    refine List.filter_eq_nil_iff.mpr fun n hn => ?_
    obtain ⟨inner, hinner, rfl⟩ := List.mem_map.mp hn
    rw [show (m.before inner).rest = inner.rest from rfl, hleft c t hqc inner hinner]
    exact Bool.false_ne_true
  · rw [Bool.false_and, List.filter_map, List.length_map]
    exact hk m.rest

theorem settled_opt {r : Regex} {p : Char → Bool} (hr : Settled r p) (hbegins : Begins r p) :
    Settled (opt r) p := by
  intro s
  rw [opt, prefixes, List.filter_append, List.length_append]
  by_cases hp : before p s = true
  · have hnone : ((Regex.empty.prefixes false s).filter fun m => !before p m.rest) = [] := by
      refine List.filter_eq_nil_iff.mpr fun m hm => ?_
      rw [List.mem_singleton.mp hm, hp]
      exact Bool.false_ne_true
    rw [hnone]
    exact hr s
  · have hnone : r.prefixes false s = [] := by_contra fun hne => hp (hbegins s hne)
    rw [hnone]
    exact (Nat.zero_add _).trans_le (List.length_filter_le _ _)

theorem single_char (p : Char → Bool) : Single (.char p) := by
  intro s
  cases s with
  | nil => exact Nat.zero_le _
  | cons c s =>
    rw [prefixes]
    split_ifs
    · exact Nat.le_refl _
    · exact Nat.zero_le _

theorem single_empty : Single .empty := fun _ => Nat.le_refl _

theorem begins_char (p : Char → Bool) : Begins (.char p) p := by
  intro s hs
  cases s with
  | nil => exact absurd rfl hs
  | cons c s =>
    rw [prefixes] at hs
    split_ifs at hs with hc
    · exact hc
    · exact absurd rfl hs

theorem begins_seq {r : Regex} {p : Char → Bool} (h : Begins r p) (k : Regex) :
    Begins (.seq r k) p := by
  intro s hs
  refine h s fun hnone => hs ?_
  rw [prefixes, hnone]
  rfl

theorem begins_group {r : Regex} {p : Char → Bool} (h : Begins r p) (n : Nat) :
    Begins (.group n r) p := by
  intro s hs
  refine h s fun hnone => hs ?_
  rw [prefixes, hnone]
  rfl

/-! ## Words -/

theorem word_cons (c : Char) (w : Text) : word (c :: w) = .seq (.char fun d => d == c) (word w) := rfl

theorem word_prefixes (w s : Text) :
    (word w).prefixes false s =
      if w <+: s then [{ taken := w, rest := s.drop w.length }] else [] := by
  induction w generalizing s with
  | nil => rw [if_pos List.nil_prefix]; rfl
  | cons c w ih =>
    rw [word_cons, prefixes]
    cases s with
    | nil => rw [if_neg (by simp)]; rfl
    | cons d s =>
      rw [prefixes]
      by_cases hd : d = c
      · subst hd
        rw [if_pos (beq_self_eq_true d), List.flatMap_singleton, Bool.false_and, ih]
        by_cases hw : w <+: s
        · rw [if_pos hw, if_pos (List.cons_prefix_cons.mpr ⟨rfl, hw⟩)]
          rfl
        · rw [if_neg hw, if_neg fun h => hw (List.cons_prefix_cons.mp h).2]
          rfl
      · rw [if_neg (by simpa using hd), if_neg fun h => hd (List.cons_prefix_cons.mp h).1.symm]
        rfl

theorem single_word (w : Text) : Single (word w) := by
  intro s
  rw [word_prefixes]
  split_ifs
  · exact Nat.le_refl _
  · exact Nat.zero_le _

theorem blocked_word {c : Char} {p : Char → Bool} (hc : p c = false) (w : Text) (k : Regex) :
    Blocked (.seq (word (c :: w)) k) p := by
  intro d s hd
  have hne : d ≠ c := fun h => by rw [h, hc] at hd; cases hd
  rw [prefixes, word_prefixes, if_neg fun h => hne (List.cons_prefix_cons.mp h).1.symm]
  rfl

theorem stable_word {w : Text} (hreturn : '\r' ∉ w) (hfeed : '\n' ∉ w) : Stable (word w) := by
  induction w with
  | nil => exact stable_empty
  | cons c w ih =>
    rw [List.mem_cons, not_or] at hreturn hfeed
    exact stable_seq (stable_char (by simpa using hreturn.1) (by simpa using hfeed.1))
      (ih hreturn.2 hfeed.2)

theorem settled_between_one_two (p : Char → Bool) : Settled (between 1 2 (.char p)) p := by
  intro s
  match s with
  | [] => exact Nat.zero_le _
  | [c] =>
    by_cases hc : p c = true
    · simp [between, times, upTo, chain, prefixes, hc, Match.before, before]
    · simp [between, times, upTo, chain, prefixes, hc]
  | c :: d :: s =>
    by_cases hc : p c = true
    · by_cases hd : p d = true
      · simp only [between, times, upTo, chain, prefixes, hc, hd, Match.before, before,
          List.replicate, List.foldr, List.flatMap_cons, List.flatMap_nil, List.map_cons,
          List.map_nil, List.append_nil, List.nil_append, List.cons_append, Bool.false_and, if_true]
        rw [List.filter_cons, List.filter_cons_of_neg (by simp [hd])]
        split_ifs <;> simp
      · simp [between, times, upTo, chain, prefixes, hc, hd, Match.before, before]
    · simp [between, times, upTo, chain, prefixes, hc]

/-! ## Numbers of groups -/

def numbers : Regex → List Nat
  | .empty => []
  | .char _ => []
  | .seq a b => a.numbers ++ b.numbers
  | .alt a b => a.numbers ++ b.numbers
  | .star _ a => a.numbers
  | .group n a => n :: a.numbers
  | .begin => []
  | .stop => []

theorem rounds_numbers {greedy : Bool} {step : Bool → Text → List Match} {ns : List Nat}
    (hstep : ∀ x s, ∀ m ∈ step x s, ∀ g ∈ m.groups, g.1 ∈ ns) (fuel : Nat) (x : Bool) (s : Text) :
    ∀ m ∈ rounds greedy step fuel x s, ∀ g ∈ m.groups, g.1 ∈ ns := by
  induction fuel generalizing x s with
  | zero =>
    intro m hm g hg
    rw [rounds, List.mem_singleton] at hm
    rw [hm] at hg
    cases hg
  | succ fuel ih =>
    have hmore : ∀ m ∈ (step x s).flatMap fun m =>
        if m.taken = [] then [] else (rounds greedy step fuel false m.rest).map m.before,
        ∀ g ∈ m.groups, g.1 ∈ ns := by
      intro m hm g hg
      obtain ⟨first, hfirst, hm⟩ := List.mem_flatMap.mp hm
      split_ifs at hm
      · cases hm
      · obtain ⟨rest, hrest, rfl⟩ := List.mem_map.mp hm
        rcases List.mem_append.mp hg with hg | hg
        · exact ih false first.rest rest hrest g hg
        · exact hstep x s first hfirst g hg
    intro m hm g hg
    rw [rounds] at hm
    split_ifs at hm
    · rcases List.mem_append.mp hm with hm | hm
      · exact hmore m hm g hg
      · rw [List.mem_singleton.mp hm] at hg
        cases hg
    · rcases List.mem_cons.mp hm with rfl | hm
      · cases hg
      · exact hmore m hm g hg

theorem prefixes_numbers (r : Regex) (x : Bool) (s : Text) :
    ∀ m ∈ r.prefixes x s, ∀ g ∈ m.groups, g.1 ∈ r.numbers := by
  induction r generalizing x s with
  | empty =>
    intro m hm g hg
    rw [List.mem_singleton.mp hm] at hg
    cases hg
  | char p =>
    intro m hm g hg
    cases s with
    | nil => cases hm
    | cons c s =>
      rw [prefixes] at hm
      split_ifs at hm
      · rw [List.mem_singleton.mp hm] at hg
        cases hg
      · cases hm
  | seq a b iha ihb =>
    intro m hm g hg
    obtain ⟨first, hfirst, hm⟩ := List.mem_flatMap.mp hm
    obtain ⟨rest, hrest, rfl⟩ := List.mem_map.mp hm
    rcases List.mem_append.mp hg with hg | hg
    · exact List.mem_append_right _ (ihb _ first.rest rest hrest g hg)
    · exact List.mem_append_left _ (iha x s first hfirst g hg)
  | alt a b iha ihb =>
    intro m hm g hg
    rcases List.mem_append.mp hm with hm | hm
    · exact List.mem_append_left _ (iha x s m hm g hg)
    · exact List.mem_append_right _ (ihb x s m hm g hg)
  | star greedy a ih => exact rounds_numbers ih s.length x s
  | group n a ih =>
    intro m hm g hg
    obtain ⟨inner, hinner, rfl⟩ := List.mem_map.mp hm
    rcases List.mem_cons.mp hg with rfl | hg
    · exact List.mem_cons_self ..
    · exact List.mem_cons_of_mem _ (ih x s inner hinner g hg)
  | begin =>
    intro m hm g hg
    rw [prefixes] at hm
    split_ifs at hm
    · rw [List.mem_singleton.mp hm] at hg
      cases hg
    · cases hm
  | stop =>
    intro m hm g hg
    rw [prefixes] at hm
    split_ifs at hm
    · rw [List.mem_singleton.mp hm] at hg
      cases hg
    · cases hm

/-! ## A word, any text, and an ending -/

/-- An opening word, the shortest text that will do, in group `n`, and an ending. -/
def opened (w : Text) (n : Nat) (k : Regex) : Regex :=
  .seq (word w) (.seq (.group n (lazyMany anyChar)) k)

theorem opened_prefixes (w : Text) (n : Nat) (k : Regex) (s : Text) :
    (opened w n k).prefixes false s =
      if w <+: s then (k.afterAny n [] (s.drop w.length)).map
        (Match.before { taken := w, rest := s.drop w.length })
      else [] := by
  rw [opened, prefixes, word_prefixes]
  split_ifs
  · rw [List.flatMap_singleton, Bool.false_and, seq_group_lazyMany]
  · rfl

theorem mem_afterAny {k : Regex} {n : Nat} {u s : Text} {m : Match} :
    m ∈ k.afterAny n u s ↔ ∃ v t, s = v ++ t ∧ ∃ ending ∈ k.prefixes false t,
      m = Match.before { taken := u ++ v, rest := t, groups := [(n, u ++ v)] } ending := by
  induction s generalizing u with
  | nil =>
    rw [afterAny, List.mem_map]
    constructor
    · rintro ⟨ending, hending, rfl⟩
      exact ⟨[], [], rfl, ending, hending, by rw [List.append_nil]⟩
    · rintro ⟨v, t, hs, ending, hending, rfl⟩
      obtain ⟨rfl, rfl⟩ := List.append_eq_nil_iff.mp hs.symm
      exact ⟨ending, hending, by rw [List.append_nil]⟩
  | cons c s ih =>
    rw [afterAny, List.mem_append, List.mem_map, ih]
    constructor
    · rintro (⟨ending, hending, rfl⟩ | ⟨v, t, rfl, ending, hending, rfl⟩)
      · exact ⟨[], c :: s, rfl, ending, hending, by rw [List.append_nil]⟩
      · exact ⟨c :: v, t, rfl, ending, hending, by rw [List.append_assoc]; rfl⟩
    · rintro ⟨v, t, hs, ending, hending, rfl⟩
      cases v with
      | nil =>
        rw [List.nil_append] at hs
        subst hs
        exact .inl ⟨ending, hending, by rw [List.append_nil]⟩
      | cons d v =>
        obtain ⟨rfl, rfl⟩ := List.cons.inj hs
        exact .inr ⟨v, t, rfl, ending, hending, by rw [List.append_assoc]; rfl⟩

theorem head_afterAny {k : Regex} {n : Nat} {u s : Text} {m : Match}
    (h : (k.afterAny n u s).head? = some m) :
    ∃ v t ending, s = v ++ t ∧ (k.prefixes false t).head? = some ending ∧
      m = Match.before { taken := u ++ v, rest := t, groups := [(n, u ++ v)] } ending ∧
      ∀ v' t', s = v' ++ t' → k.prefixes false t' ≠ [] → v.length ≤ v'.length := by
  induction s generalizing u with
  | nil =>
    rw [afterAny, List.head?_map] at h
    obtain ⟨ending, hending, rfl⟩ := Option.map_eq_some_iff.mp h
    exact ⟨[], [], ending, rfl, hending, by rw [List.append_nil], fun _ _ _ _ => Nat.zero_le _⟩
  | cons c s ih =>
    rw [afterAny, List.head?_append, List.head?_map] at h
    cases hhead : (k.prefixes false (c :: s)).head? with
    | some ending =>
      rw [hhead] at h
      obtain rfl := Option.some.inj h
      exact ⟨[], c :: s, ending, rfl, hhead, by rw [List.append_nil], fun _ _ _ _ => Nat.zero_le _⟩
    | none =>
      rw [hhead] at h
      obtain ⟨v, t, ending, rfl, hending, rfl, hleast⟩ := ih h
      refine ⟨c :: v, t, ending, rfl, hending, by rw [List.append_assoc]; rfl, fun v' t' hs hne => ?_⟩
      cases v' with
      | nil =>
        rw [List.nil_append] at hs
        exact absurd (List.head?_eq_none_iff.mp (hs ▸ hhead)) hne
      | cons d v' => exact Nat.succ_le_succ (hleast v' t' (List.cons.inj hs).2 hne)

theorem mem_opened {w : Text} {n : Nat} {k : Regex} {s : Text} {m : Match} :
    m ∈ (opened w n k).prefixes false s ↔ ∃ v t, s = w ++ (v ++ t) ∧
      ∃ ending ∈ k.prefixes false t, m = Match.before { taken := w, rest := v ++ t }
        (Match.before { taken := v, rest := t, groups := [(n, v)] } ending) := by
  rw [opened_prefixes]
  constructor
  · intro hm
    split_ifs at hm with hw
    · obtain ⟨rest, rfl⟩ := hw
      rw [List.drop_left] at hm
      obtain ⟨inner, hinner, rfl⟩ := List.mem_map.mp hm
      obtain ⟨v, t, rfl, ending, hending, rfl⟩ := mem_afterAny.mp hinner
      exact ⟨v, t, rfl, ending, hending, rfl⟩
    · cases hm
  · rintro ⟨v, t, rfl, ending, hending, rfl⟩
    rw [if_pos (List.prefix_append _ _), List.drop_left]
    exact List.mem_map_of_mem (mem_afterAny.mpr ⟨v, t, rfl, ending, hending, rfl⟩)

theorem opened_group {w : Text} {n : Nat} {k : Regex} (hn : n ∉ k.numbers) {v t : Text}
    {ending : Match} (hending : ending ∈ k.prefixes false t) :
    (Match.before { taken := w, rest := v ++ t }
      (Match.before { taken := v, rest := t, groups := [(n, v)] } ending)).group n = some v := by
  have hnone : ending.groups.lookup n = none := by
    rw [List.lookup_eq_none_iff]
    intro g hg
    have hne : n ≠ g.1 := fun h => hn (h ▸ prefixes_numbers k false t ending hending g hg)
    simpa using hne
  rw [Match.group, Match.before, Match.before]
  dsimp only
  rw [List.append_nil, List.lookup_append, hnone, List.lookup_cons_self]
  rfl

theorem locate_here {r : Regex} {s : Text} (h : r.prefixes false s ≠ []) :
    ∃ m, r.locate s = some ([], m) := by
  obtain ⟨m, others, hprefixes⟩ := List.exists_cons_of_ne_nil h
  cases s with
  | nil =>
    refine ⟨m, ?_⟩
    show (r.prefixes false []).head?.map (Prod.mk []) = _
    rw [hprefixes]
    rfl
  | cons c s =>
    refine ⟨m, ?_⟩
    rw [locate, hprefixes]
    rfl

/-- A match that goes on beyond a text, and what is found in the text alone from
where it begins: nothing, or a match there whose text is longer. -/
theorem opened_rival {w : Text} {n : Nat} {k : Regex} (hk : Single k) (hn : n ∉ k.numbers)
    (hr : (opened w n k).unanchored = true) (htaking : (opened w n k).Taking) {a b : Text} {m : Match}
    (hhead : ((opened w n k).prefixes false (a ++ b)).head? = some m) (hout : m.within b = false)
    (line : Nat) :
    (opened w n k).place line a = [] ∨
      ∃ p rest v v', (opened w n k).place line a = p :: rest ∧ p.first = line ∧
        m.group n = some v ∧ p.group n = some v' ∧ v <+: v' ∧ v ≠ v' := by
  -- the match beyond the text has the shortest text of all
  have hwhole := hhead
  rw [opened_prefixes] at hwhole
  split_ifs at hwhole with hw
  · obtain ⟨inner, hinner, rfl⟩ := Option.map_eq_some_iff.mp ((List.head?_map ..).symm.trans hwhole)
    obtain ⟨v, t, ending, hvt, hending, rfl, hleast⟩ := head_afterAny hinner
    rw [place_eq hr htaking]
    cases hfound : (opened w n k).locate a with
    | none => exact .inl rfl
    | some found =>
      right
      obtain ⟨gap, m'⟩ := found
      have hsplit := locate_append hfound
      obtain ⟨v', t', ht', ending', hending', hm'⟩ :=
        mem_opened.mp (List.mem_of_head? (locate_head hfound))
      dsimp only at hsplit ht' hm'
      -- what is found in the text begins where the text does
      have hwa : w <+: a := by
        refine List.prefix_of_prefix_length_le hw (List.prefix_append a b) ?_
        rw [← hsplit, List.append_assoc, ht', List.length_append, List.length_append]
        omega
      obtain ⟨a', rfl⟩ := hwa
      rw [List.append_assoc, List.drop_left] at hvt
      have hgap : gap = [] := by
        rw [List.append_assoc, ht'] at hsplit
        have ha' : a' = (gap ++ (w ++ v')).drop w.length ++ t' := by
          have hdrop := congrArg (List.drop w.length) hsplit
          rw [List.drop_left] at hdrop
          rw [← hdrop, ← List.drop_append_of_le_length]
          · simp only [List.append_assoc]
          · rw [List.length_append, List.length_append]
            omega
        have hne : (opened w n k).prefixes false (w ++ a') ≠ [] := by
          refine List.ne_nil_of_mem (mem_opened.mpr ⟨_, t', congrArg (w ++ ·) ha', ending', hending', rfl⟩)
        obtain ⟨m'', hhere⟩ := locate_here hne
        rw [hhere] at hfound
        exact (Prod.mk.inj (Option.some.inj hfound)).1.symm
      subst hgap
      rw [List.nil_append, ht', List.append_cancel_left_eq] at hsplit
      subst hsplit
      rw [List.append_assoc] at hvt
      -- its ending is there beyond the text too
      have honto : ending'.onto b ∈ k.prefixes false (t' ++ b) := by
        have hunanchored : k.unanchored = true := by
          rw [opened, unanchored, unanchored, Bool.and_eq_true, Bool.and_eq_true] at hr
          exact hr.2.2
        have hmem : ending'.onto b ∈ (k.prefixes false (t' ++ b)).filter (Match.within b) := by
          rw [prefixes_onto hunanchored]
          exact List.mem_map_of_mem hending'
        exact (List.mem_filter.mp hmem).1
      have hle := hleast v' (t' ++ b)
        (by rw [List.append_assoc, List.drop_left, List.append_assoc]) (List.ne_nil_of_mem honto)
      have hv' : v' <+: v ++ t := hvt ▸ List.prefix_append v' (t' ++ b)
      have hpre : v <+: v' := List.prefix_of_prefix_length_le (List.prefix_append v t) hv' hle
      refine ⟨_, _, v, v', rfl, rfl, opened_group hn (List.mem_of_head? hending), ?_, hpre, ?_⟩
      · rw [Placed.group, Placed.at, hm']
        exact opened_group hn hending'
      · -- with the same text the ending is the same, and does not go beyond
        rintro rfl
        rw [List.append_cancel_left_eq] at hvt
        subst hvt
        have hending'' := List.mem_of_head? hending
        have hsame : ending = ending'.onto b := by
          have hone := hk (t' ++ b)
          obtain ⟨only, honly⟩ : ∃ only, k.prefixes false (t' ++ b) = [only] := by
            cases hp : k.prefixes false (t' ++ b) with
            | nil => rw [hp] at honto; cases honto
            | cons only others =>
              rw [hp, List.length_cons] at hone
              exact ⟨only, by rw [List.length_eq_zero_iff.mp (show others.length = 0 by omega)]⟩
          rw [honly, List.mem_singleton] at honto hending''
          rw [hending'', honto]
        rw [hsame] at hout
        refine absurd hout ?_
        rw [Match.within, decide_eq_false_iff_not, not_not]
        show b.length ≤ (ending'.rest ++ b).length
        rw [List.length_append]
        omega
  · cases hwhole

end Regex
end CmTrace
