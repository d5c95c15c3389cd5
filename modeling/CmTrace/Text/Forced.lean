import CmTrace.Text.Settled

/-!
# Texts that leave a match no choice

When every way to match a piece but the first one is left where the rest of the
expression cannot go on, the matches of the whole are the matches of that rest on
the rest of the text.  A text written for an expression is read piece by piece.
-/

namespace CmTrace

open Text

namespace Regex

/-! ## Pieces -/

/-- The first way is `m`; every other way is left before a character of the class. -/
def Takes (r : Regex) (p : Char → Bool) (s : Text) (m : Match) : Prop :=
  ∃ more, r.prefixes false s = m :: more ∧ ∀ n ∈ more, before p n.rest = true

theorem prefixes_group {r : Regex} {x : Bool} {s : Text} {m : Match} (h : r.prefixes x s = [m])
    (n : Nat) :
    (Regex.group n r).prefixes x s = [{ m with groups := (n, m.taken) :: m.groups }] := by
  rw [prefixes, h]
  rfl

theorem Takes.group {r : Regex} {p : Char → Bool} {s : Text} {m : Match} (h : Takes r p s m)
    (n : Nat) : Takes (.group n r) p s { m with groups := (n, m.taken) :: m.groups } := by
  obtain ⟨more, hprefixes, hmore⟩ := h
  refine ⟨more.map fun m => { m with groups := (n, m.taken) :: m.groups }, ?_, fun m hm => ?_⟩
  · rw [prefixes, hprefixes]
    rfl
  · obtain ⟨inner, hinner, rfl⟩ := List.mem_map.mp hm
    exact hmore inner hinner

theorem unanchored_word (w : Text) : (Regex.word w).unanchored = true := by
  induction w with
  | nil => rfl
  | cons c w ih => exact ih

theorem word_append (w t : Text) (x : Bool) :
    (word w).prefixes x (w ++ t) = [{ taken := w, rest := t }] := by
  rw [prefixes_atBegin (unanchored_word w) x false, word_prefixes,
    if_pos (List.prefix_append w t), List.drop_left]

theorem char_cons {q : Char → Bool} {c : Char} (hc : q c = true) (t : Text) (x : Bool) :
    (Regex.char q).prefixes x (c :: t) = [{ taken := [c], rest := t }] := by
  rw [prefixes, if_pos hc]

theorem many_of_not_before {q : Char → Bool} {t : Text} (ht : before q t = false) :
    (many (.char q)).prefixes false t = [{ taken := [], rest := t }] := by
  cases t with
  | nil => rfl
  | cons c t => exact many_cons_neg (by simpa [before] using ht) t

theorem takes_many {q : Char → Bool} {u t : Text} (hu : ∀ c ∈ u, q c = true)
    (ht : before q t = false) :
    Takes (many (.char q)) u.contains (u ++ t) { taken := u, rest := t } := by
  induction u with
  | nil => exact ⟨[], many_of_not_before ht, fun m hm => absurd hm List.not_mem_nil⟩
  | cons c u ih =>
    obtain ⟨more, hprefixes, hmore⟩ := ih fun d hd => hu d (List.mem_cons_of_mem _ hd)
    refine ⟨more.map (Match.before { taken := [c], rest := u ++ t }) ++
      [{ taken := [], rest := c :: (u ++ t) }], ?_, fun m hm => ?_⟩
    · rw [List.cons_append, many_cons_pos (hu c List.mem_cons_self), hprefixes]
      rfl
    · rcases List.mem_append.mp hm with hm | hm
      · obtain ⟨inner, hinner, rfl⟩ := List.mem_map.mp hm
        obtain ⟨d, hd, hin⟩ := Option.any_eq_true .. |>.mp (hmore inner hinner)
        refine Option.any_eq_true .. |>.mpr ⟨d, hd, ?_⟩
        rw [List.contains_cons, hin, Bool.or_true]
      · rw [List.mem_singleton.mp hm]
        simp [before]

theorem takes_plus {q : Char → Bool} {c : Char} {u t : Text} (hc : q c = true)
    (hu : ∀ d ∈ u, q d = true) (ht : before q t = false) :
    Takes (plus (.char q)) u.contains (c :: u ++ t) { taken := c :: u, rest := t } := by
  obtain ⟨more, hprefixes, hmore⟩ := takes_many hu ht
  refine ⟨more.map (Match.before { taken := [c], rest := u ++ t }), ?_, fun m hm => ?_⟩
  · rw [plus, prefixes, List.cons_append, prefixes, if_pos hc, List.flatMap_singleton,
      Bool.false_and, show ((Regex.char q).star true).prefixes false (u ++ t) = _ from hprefixes]
    rfl
  · obtain ⟨inner, hinner, rfl⟩ := List.mem_map.mp hm
    exact hmore inner hinner

theorem plus_one {q : Char → Bool} {c : Char} {t : Text} (hc : q c = true)
    (ht : before q t = false) :
    (plus (.char q)).prefixes false (c :: t) = [{ taken := [c], rest := t }] := by
  rw [plus, prefixes, prefixes, if_pos hc, List.flatMap_singleton, Bool.false_and,
    show ((Regex.char q).star true).prefixes false t = _ from many_of_not_before ht]
  rfl

theorem times_append {q : Char → Bool} {u : Text} (hu : ∀ c ∈ u, q c = true) (t : Text) :
    (times u.length (.char q)).prefixes false (u ++ t) = [{ taken := u, rest := t }] := by
  induction u with
  | nil => rfl
  | cons c u ih =>
    have hrest := ih fun d hd => hu d (List.mem_cons_of_mem _ hd)
    show (Regex.seq (.char q) (times u.length (.char q))).prefixes false (c :: (u ++ t)) = _
    rw [prefixes, prefixes, if_pos (hu c List.mem_cons_self), List.flatMap_singleton,
      Bool.false_and, hrest]
    rfl

theorem between_append {q : Char → Bool} {n : Nat} {u : Text} (hlen : u.length = n)
    (hu : ∀ c ∈ u, q c = true) (t : Text) :
    (between n n (.char q)).prefixes false (u ++ t) = [{ taken := u, rest := t }] := by
  subst hlen
  rw [between, Nat.sub_self, upTo, prefixes, times_append hu]
  simp [prefixes, Match.before]

theorem takes_one_two {q : Char → Bool} {u t : Text} (hlen : u.length = 1 ∨ u.length = 2)
    (hu : ∀ c ∈ u, q c = true) (ht : before q t = false) :
    Takes (between 1 2 (.char q)) u.contains (u ++ t) { taken := u, rest := t } := by
  match u, hlen with
  | [c], _ =>
    have hc := hu c (by simp)
    refine ⟨[], ?_, fun m hm => absurd hm List.not_mem_nil⟩
    cases t with
    | nil => simp [between, times, upTo, chain, prefixes, hc, Match.before]
    | cons d t =>
      have hd : q d = false := ht
      simp [between, times, upTo, chain, prefixes, hc, hd, Match.before]
  | [c, d], _ =>
    have hc := hu c (by simp)
    have hd := hu d (by simp)
    refine ⟨[{ taken := [c], rest := d :: t }], ?_, fun m hm => ?_⟩
    · simp [between, times, upTo, chain, prefixes, hc, hd, Match.before]
    · rw [List.mem_singleton.mp hm]
      simp [before]

/-! ## From piece to piece -/

theorem chain_cons (a : Regex) (as : List Regex) : chain (a :: as) = .seq a (chain as) := rfl

theorem chain_chain (as bs : List Regex) (x : Bool) (s : Text) :
    (chain (chain as :: bs)).prefixes x s = (chain (as ++ bs)).prefixes x s := by
  induction as generalizing x s with
  | nil =>
    rw [chain_cons, prefixes]
    show [_].flatMap _ = _
    rw [List.flatMap_singleton, List.map_congr_left (g := id) fun n _ => ?_, List.map_id]
    · simp
    · simp [Match.before]
  | cons a as ih =>
    rw [List.cons_append, chain_cons, chain_cons, chain_cons, prefixes, prefixes, prefixes]
    simp only [← ih, chain_cons, prefixes, List.flatMap_assoc, List.map_flatMap, List.flatMap_map,
      List.map_map]
    refine List.flatMap_congr fun m _ => List.flatMap_congr fun n _ => ?_
    have hflag : (x && (m.before n).taken.isEmpty) = (x && m.taken.isEmpty && n.taken.isEmpty) := by
      rw [Bool.and_assoc, show (m.before n).taken = m.taken ++ n.taken from rfl]
      cases m.taken <;> rfl
    rw [hflag]
    refine List.map_congr_left fun l _ => ?_
    simp [Match.before]

theorem blocked_word_of_not_mem {c : Char} {w u : Text} (h : c ∉ u) (as : List Regex) :
    Blocked (chain (word (c :: w) :: as)) u.contains :=
  blocked_word (by simpa using h) w (chain as)

/-- The matches of `r` on `s` are those of `k` on `t`, after groups `gs`. -/
def Forces (r : Regex) (x : Bool) (s : Text) (k : Regex) (y : Bool) (t : Text)
    (gs : List (Nat × Text)) : Prop :=
  ∃ u, r.prefixes x s = (k.prefixes y t).map (Match.before { taken := u, rest := t, groups := gs })

namespace Forces

variable {r a k : Regex} {as bs : List Regex} {x y : Bool} {s t u : Text}
  {gs : List (Nat × Text)} {m : Match}

theorem refl (r : Regex) (x : Bool) (s : Text) : Forces r x s r x s [] := by
  refine ⟨[], ?_⟩
  rw [List.map_congr_left (g := id) fun n _ => ?_, List.map_id]
  simp [Match.before]

theorem piece (h : Forces r x s (chain (a :: as)) y t gs) (ha : a.prefixes y t = [m]) :
    Forces r x s (chain as) (y && m.taken.isEmpty) m.rest (m.groups ++ gs) := by
  obtain ⟨u, hu⟩ := h
  refine ⟨u ++ m.taken, ?_⟩
  rw [hu, chain_cons, prefixes, ha, List.flatMap_singleton, List.map_map]
  refine List.map_congr_left fun n _ => ?_
  simp [Match.before]

theorem takes {p : Char → Bool} (h : Forces r x s (chain (a :: as)) false t gs)
    (ha : Takes a p t m) (hk : Blocked (chain as) p) :
    Forces r x s (chain as) false m.rest (m.groups ++ gs) := by
  obtain ⟨u, hu⟩ := h
  obtain ⟨more, hprefixes, hmore⟩ := ha
  have hnone : (more.flatMap fun m => ((chain as).prefixes false m.rest).map m.before) = [] := by
    refine List.flatMap_eq_nil_iff.mpr fun n hn => ?_
    obtain ⟨c, hc, hpc⟩ := Option.any_eq_true .. |>.mp (hmore n hn)
    obtain ⟨v, hv⟩ := List.head?_eq_some_iff.mp hc
    rw [hv, hk c v hpc]
    rfl
  refine ⟨u ++ m.taken, ?_⟩
  rw [hu, chain_cons, prefixes]
  simp only [Bool.false_and]
  rw [hprefixes, List.flatMap_cons, hnone, List.append_nil, List.map_map]
  refine List.map_congr_left fun n _ => ?_
  simp [Match.before]

theorem flat (h : Forces r x s (chain (chain as :: bs)) y t gs) :
    Forces r x s (chain (as ++ bs)) y t gs := by
  obtain ⟨u, hu⟩ := h
  exact ⟨u, hu.trans (congrArg _ (chain_chain as bs y t))⟩

theorem begins (h : Forces r x s (chain (.begin :: as)) true t gs) :
    Forces r x s (chain as) true t gs := h.piece rfl

theorem word (h : Forces r x s (chain (word u :: as)) y (u ++ t) gs) (hu : u ≠ []) :
    Forces r x s (chain as) false t gs := by
  have hflag : (y && u.isEmpty) = false := by rw [List.isEmpty_eq_false_iff.mpr hu, Bool.and_false]
  exact hflag ▸ h.piece (word_append u t y)

theorem one {q : Char → Bool} {c : Char}
    (h : Forces r x s (chain (plus (.char q) :: as)) false (c :: t) gs) (hc : q c = true)
    (ht : before q t = false) : Forces r x s (chain as) false t gs := h.piece (plus_one hc ht)

theorem done (h : Forces r x (u ++ t) (chain []) y t gs) :
    r.prefixes x (u ++ t) = [{ taken := u, rest := t, groups := gs }] := by
  obtain ⟨v, hv⟩ := h
  have hone : r.prefixes x (u ++ t) = [{ taken := v, rest := t, groups := gs }] := by
    rw [hv]
    simp [chain, prefixes, Match.before]
  have hfront : v ++ t = u ++ t := prefixes_append r x (u ++ t) _ (hone ▸ List.mem_cons_self)
  rw [hone, List.append_cancel_right hfront]

theorem nothing (h : Forces r x s k y t gs) (hk : k.prefixes y t = []) : r.prefixes x s = [] := by
  obtain ⟨u, hu⟩ := h
  rw [hu, hk]
  rfl

theorem captures (h : Forces r true s k y t gs) (hk : k.prefixes y t ≠ []) :
    ∃ caps, r.captures s = some caps ∧ ∀ n, n ∉ k.numbers → caps.group n = gs.lookup n := by
  obtain ⟨u, hu⟩ := h
  obtain ⟨first, later, hfirst⟩ := List.exists_cons_of_ne_nil hk
  refine ⟨Match.before { taken := u, rest := t, groups := gs } first, ?_, fun n hn => ?_⟩
  · rw [Regex.captures]
    unfold findFrom
    rw [hu, hfirst]
    rfl
  · have hnone : first.groups.lookup n = none := by
      refine List.lookup_eq_none_iff.mpr fun g hg => ?_
      have hnumber := prefixes_numbers k y t first (hfirst ▸ List.mem_cons_self) g hg
      exact bne_iff_ne.mpr fun heq => hn (by rw [heq]; exact hnumber)
    rw [Match.group, Match.before, List.lookup_append, hnone]
    rfl

end Forces

/-! ## Expressions that hold at the beginning only -/

theorem captures_anchored {r : Regex} (h : ∀ s, r.prefixes false s = []) (s : Text) :
    r.captures s = (r.prefixes true s).head? := by
  have hlater : ∀ s, r.findFrom false s = none := by
    intro s
    induction s with
    | nil =>
      unfold findFrom
      rw [h]
      rfl
    | cons c s ih =>
      unfold findFrom
      rw [h]
      exact ih
  rw [captures]
  unfold findFrom
  cases (r.prefixes true s).head? with
  | some m => rfl
  | none =>
    cases s with
    | nil => rfl
    | cons c s => exact hlater s

def Opens (r : Regex) (w : Text) : Prop :=
  ∀ x s, r.prefixes x s ≠ [] → x = true ∧ w <+: s

theorem opens_word (w : Text) (as : List Regex) : Opens (chain (.begin :: word w :: as)) w := by
  intro x s hs
  cases x with
  | false => exact absurd rfl hs
  | true =>
    refine ⟨rfl, by_contra fun hw => hs ?_⟩
    have hword : (Regex.word w).prefixes true s = [] := by
      rw [prefixes_atBegin (unanchored_word w) true false, word_prefixes, if_neg hw]
    rw [chain_cons, chain_cons, prefixes, prefixes, if_pos rfl, List.flatMap_singleton, prefixes]
    show List.map _ (List.flatMap _ ((Regex.word w).prefixes true s)) = []
    rw [hword]
    rfl

theorem Opens.chain {r : Regex} {w : Text} (h : Opens r w) (as : List Regex) :
    Opens (Regex.chain (r :: as)) w := by
  intro x s hs
  refine h x s fun hnone => hs ?_
  rw [chain_cons, prefixes, hnone]
  rfl

theorem Opens.captures_none {r : Regex} {w s : Text} (h : Opens r w) (hs : ¬ w <+: s) :
    r.captures s = none := by
  have hfalse : ∀ s, r.prefixes false s = [] := fun s =>
    by_contra fun hne => Bool.false_ne_true (h false s hne).1
  have htrue : r.prefixes true s = [] := by_contra fun hne => hs (h true s hne).2
  rw [captures_anchored hfalse, htrue]
  rfl

/-! ## Some match -/

theorem chain_ne_nil {a : Regex} {as : List Regex} {s : Text} {m : Match}
    (ha : m ∈ a.prefixes false s) (has : (chain as).prefixes false m.rest ≠ []) :
    (chain (a :: as)).prefixes false s ≠ [] := by
  rw [chain_cons, prefixes]
  intro hnone
  have hm := List.flatMap_eq_nil_iff.mp hnone m ha
  exact has (List.map_eq_nil_iff.mp hm)

theorem mem_word (w t : Text) :
    { taken := w, rest := t } ∈ (word w).prefixes false (w ++ t) := by
  rw [word_append]
  exact List.mem_singleton_self _

theorem mem_many {q : Char → Bool} {u : Text} (hu : ∀ c ∈ u, q c = true) (t : Text) :
    { taken := u, rest := t } ∈ (many (.char q)).prefixes false (u ++ t) := by
  induction u with
  | nil => exact mem_star.mpr (.inl rfl)
  | cons c u ih =>
    have hrest := ih fun d hd => hu d (List.mem_cons_of_mem _ hd)
    rw [List.cons_append, many_cons_pos (hu c List.mem_cons_self)]
    exact List.mem_append_left _ (List.mem_map_of_mem hrest)

theorem mem_plus {q : Char → Bool} {c : Char} {u : Text} (hc : q c = true)
    (hu : ∀ d ∈ u, q d = true) (t : Text) :
    { taken := c :: u, rest := t } ∈ (plus (.char q)).prefixes false (c :: u ++ t) := by
  rw [plus, prefixes, List.cons_append, prefixes, if_pos hc, List.flatMap_singleton]
  exact List.mem_map_of_mem (mem_many hu t)

theorem mem_group {r : Regex} {s : Text} {m : Match} (h : m ∈ r.prefixes false s) (n : Nat) :
    { m with groups := (n, m.taken) :: m.groups } ∈ (Regex.group n r).prefixes false s :=
  List.mem_map_of_mem h

end Regex
end CmTrace
