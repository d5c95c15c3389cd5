import CmTrace.Text.Lines
import CmTrace.Text.Locate

/-!
# Carriage returns before line feeds

A text read line by line loses the carriage return before every line feed.  An
expression whose matches do not end between the two, and that takes the return
wherever it takes the line feed, finds the same matches in both forms.
-/

namespace CmTrace
namespace Text

def dropReturns : Text → Text
  | [] => []
  | c :: s => if c = '\r' ∧ s.head? = some '\n' then dropReturns s else c :: dropReturns s

/-- A cut that does not fall between a carriage return and its line feed. -/
def Whole (a b : Text) : Prop := ¬ (a.getLast? = some '\r' ∧ b.head? = some '\n')

theorem dropReturns_crlf (s : Text) : dropReturns ('\r' :: '\n' :: s) = '\n' :: dropReturns s := by
  rw [dropReturns, if_pos ⟨rfl, rfl⟩, dropReturns, if_neg (by simp)]

theorem dropReturns_cons {c : Char} {s : Text} (h : ¬ (c = '\r' ∧ s.head? = some '\n')) :
    dropReturns (c :: s) = c :: dropReturns s := by
  rw [dropReturns, if_neg h]

theorem dropReturns_append {a b : Text} (h : Whole a b) :
    dropReturns (a ++ b) = dropReturns a ++ dropReturns b := by
  induction a with
  | nil => rfl
  | cons c a ih =>
    rw [List.cons_append, dropReturns, dropReturns]
    cases a with
    | nil =>
      have hno : ¬ (c = '\r' ∧ ([] ++ b).head? = some '\n') := fun hc => h ⟨by rw [hc.1]; rfl, hc.2⟩
      rw [if_neg hno, if_neg (by simp)]
      rfl
    | cons d a =>
      have hwhole : Whole (d :: a) b := fun hc => h ⟨by rw [List.getLast?_cons_cons]; exact hc.1, hc.2⟩
      rw [ih hwhole, show (d :: a ++ b).head? = (d :: a).head? from rfl]
      by_cases hcrlf : c = '\r' ∧ (d :: a).head? = some '\n'
      · rw [if_pos hcrlf, if_pos hcrlf]
      · rw [if_neg hcrlf, if_neg hcrlf]
        rfl

theorem dropReturns_eq_nil (s : Text) : dropReturns s = [] ↔ s = [] := by
  constructor
  · intro h
    induction s with
    | nil => rfl
    | cons c s ih =>
      rw [dropReturns] at h
      split_ifs at h with hcrlf
      rw [ih h] at hcrlf
      cases hcrlf.2
  · rintro rfl
    rfl

theorem dropReturns_length (s : Text) : (dropReturns s).length ≤ s.length := by
  induction s with
  | nil => exact Nat.le_refl _
  | cons c s ih =>
    rw [dropReturns]
    split_ifs
    · exact Nat.le_succ_of_le ih
    · exact Nat.succ_le_succ ih

theorem dropReturns_count (s : Text) : (dropReturns s).count '\n' = s.count '\n' := by
  induction s with
  | nil => rfl
  | cons c s ih =>
    rw [dropReturns]
    split_ifs with hcrlf
    · rw [ih, hcrlf.1]
      exact (List.count_cons_of_ne (by decide)).symm
    · rw [List.count_cons, List.count_cons, ih]

theorem dropReturns_isPrefix {s : Text} (h : dropReturns s <+: s) : dropReturns s = s := by
  induction s with
  | nil => rfl
  | cons c s ih =>
    by_cases hcrlf : c = '\r' ∧ s.head? = some '\n'
    · obtain ⟨rfl, hs⟩ := hcrlf
      obtain ⟨s, rfl⟩ : ∃ t, s = '\n' :: t := List.head?_eq_some_iff.mp hs
      rw [dropReturns_crlf] at h
      exact absurd (List.cons_prefix_cons.mp h).1 (by decide)
    · rw [dropReturns_cons hcrlf] at h ⊢
      rw [ih (List.cons_prefix_cons.mp h).2]

theorem dropReturns_of_not_mem {s : Text} (h : '\n' ∉ s) : dropReturns s = s := by
  induction s with
  | nil => rfl
  | cons c s ih =>
    rw [List.mem_cons, not_or] at h
    rw [dropReturns_cons fun hc => h.2 (List.mem_of_head? hc.2), ih h.2]

theorem dropReturns_newline {line : Text} (h : '\n' ∉ line) (s : Text) :
    dropReturns (line ++ '\n' :: s) = stripCarriageReturn line ++ '\n' :: dropReturns s := by
  rw [stripCarriageReturn]
  split_ifs with hlast
  · obtain ⟨front, rfl⟩ := List.getLast?_eq_some_iff.mp hlast
    have hfront : '\n' ∉ front := fun hmem => h (List.mem_append_left _ hmem)
    rw [List.dropLast_concat, List.append_assoc, dropReturns_append fun hc => (by cases hc.2),
      dropReturns_of_not_mem hfront, List.singleton_append, dropReturns_crlf]
  · rw [dropReturns_append fun hc => hlast hc.1, dropReturns_of_not_mem h,
      dropReturns_cons (by simp)]

/-- A text without the returns is its complete lines, each with a line feed, and what
follows the last of them. -/
theorem dropReturns_lines (s : Text) :
    dropReturns s = ((completeLines s).map fun line => line ++ ['\n']).flatten ++ lastLine s := by
  induction hs : s.length using Nat.strong_induction_on generalizing s with
  | _ n ih =>
    by_cases hmem : '\n' ∈ s
    · obtain ⟨line, rest, rfl, hline⟩ := List.eq_append_cons_of_mem hmem
      have hrest := ih rest.length (by rw [← hs, List.length_append, List.length_cons]; omega) rest rfl
      have hlines : completeLines (line ++ '\n' :: rest) =
          stripCarriageReturn line :: completeLines rest := by
        rw [completeLines, terminated_newline hline]
        rfl
      have hlast : lastLine (line ++ '\n' :: rest) = lastLine rest := by
        rw [lastLine, terminated_newline hline]
        rfl
      rw [dropReturns_newline hline, hrest, hlines, hlast, List.map_cons, List.flatten_cons]
      simp only [List.append_assoc, List.cons_append, List.nil_append]
    · rw [dropReturns_of_not_mem hmem, completeLines, lastLine, terminated_of_not_mem hmem]
      rfl

end Text

namespace Regex

open Text

/-! ## Expressions that pass over the returns -/

def Match.dropReturns (m : Match) : Match :=
  { taken  := Text.dropReturns m.taken
    rest   := Text.dropReturns m.rest
    groups := m.groups.map fun g => (g.1, Text.dropReturns g.2) }

/-- The expression matches a text without the returns in the same ways, and no match
ends before a line feed that a return precedes. -/
def Stable (r : Regex) : Prop :=
  ∀ s, (∀ m ∈ r.prefixes false s, Whole m.taken m.rest) ∧
    r.prefixes false (dropReturns s) = (r.prefixes false s).map Match.dropReturns

theorem whole_nil (s : Text) : Whole [] s := fun h => (by cases h.1)

theorem whole_before {a b c : Text} (hbc : Whole b c) (hac : b = [] → Whole a c) :
    Whole (a ++ b) c := by
  intro h
  cases b with
  | nil =>
    rw [List.append_nil] at h
    exact hac rfl h
  | cons d b => exact hbc ⟨by rw [← h.1, List.getLast?_append_cons], h.2⟩

theorem whole_append {a b c : Text} (h : Whole a (b ++ c)) : Whole a b := by
  intro hab
  cases b with
  | nil => cases hab.2
  | cons d b => exact h ⟨hab.1, hab.2⟩

theorem before_dropReturns {m n : Match} (hm : Whole m.taken m.rest)
    (hn : n.taken ++ n.rest = m.rest) :
    (m.before n).dropReturns = m.dropReturns.before n.dropReturns := by
  rw [Match.before, Match.dropReturns, Match.before]
  dsimp only [Match.dropReturns]
  rw [Text.dropReturns_append (whole_append (hn ▸ hm)), List.map_append]

theorem stable_empty : Stable .empty := by
  refine fun s => ⟨fun m hm => ?_, rfl⟩
  rw [List.mem_singleton.mp hm]
  exact whole_nil s

theorem stable_char {p : Char → Bool} (hreturn : p '\r' = false) (hfeed : p '\n' = false) :
    Stable (.char p) := by
  intro s
  cases s with
  | nil => exact ⟨fun m hm => (by cases hm), rfl⟩
  | cons c s =>
    by_cases hcrlf : c = '\r' ∧ s.head? = some '\n'
    · obtain ⟨rfl, hs⟩ := hcrlf
      obtain ⟨s, rfl⟩ : ∃ t, s = '\n' :: t := List.head?_eq_some_iff.mp hs
      rw [dropReturns_crlf, prefixes, prefixes, hreturn, hfeed]
      exact ⟨fun m hm => (by cases hm), rfl⟩
    · rw [dropReturns_cons hcrlf, prefixes, prefixes]
      split_ifs with hp
      · refine ⟨fun m hm h => ?_, ?_⟩
        · rw [List.mem_singleton.mp hm] at h
          exact hcrlf ⟨Option.some.inj h.1, h.2⟩
        · simp [Match.dropReturns, Text.dropReturns]
      · exact ⟨fun m hm => (by cases hm), rfl⟩

theorem stable_seq {a b : Regex} (ha : Stable a) (hb : Stable b) : Stable (.seq a b) := by
  refine fun s => ⟨fun m hm => ?_, ?_⟩
  · obtain ⟨first, hfirst, hm⟩ := List.mem_flatMap.mp hm
    obtain ⟨rest, hrest, rfl⟩ := List.mem_map.mp hm
    rw [Bool.false_and] at hrest
    refine whole_before ((hb first.rest).1 rest hrest) fun hempty => ?_
    have hsplit := prefixes_append b false first.rest rest hrest
    rw [hempty, List.nil_append] at hsplit
    exact hsplit ▸ (ha s).1 first hfirst
  · rw [prefixes, prefixes, (ha s).2, List.flatMap_map, List.map_flatMap]
    refine List.flatMap_congr fun m hm => ?_
    rw [Bool.false_and, Bool.false_and, show m.dropReturns.rest = Text.dropReturns m.rest from rfl,
      (hb m.rest).2, List.map_map, List.map_map]
    refine List.map_congr_left fun n hn => ?_
    exact (before_dropReturns ((ha s).1 m hm) (prefixes_append b false m.rest n hn)).symm

theorem stable_alt {a b : Regex} (ha : Stable a) (hb : Stable b) : Stable (.alt a b) := by
  refine fun s => ⟨fun m hm => ?_, ?_⟩
  · rcases List.mem_append.mp hm with hm | hm
    · exact (ha s).1 m hm
    · exact (hb s).1 m hm
  · rw [prefixes, prefixes, (ha s).2, (hb s).2, List.map_append]

theorem stable_group {a : Regex} (ha : Stable a) (n : Nat) : Stable (.group n a) := by
  refine fun s => ⟨fun m hm => ?_, ?_⟩
  · obtain ⟨inner, hinner, rfl⟩ := List.mem_map.mp hm
    exact (ha s).1 inner hinner
  · rw [prefixes, prefixes, (ha s).2, List.map_map, List.map_map]
    rfl

theorem stable_rounds {greedy : Bool} {a : Regex} (ha : Stable a) {fuel : Nat} {s : Text}
    (h : s.length ≤ fuel) :
    (∀ m ∈ rounds greedy a.prefixes fuel false s, Whole m.taken m.rest) ∧
      rounds greedy a.prefixes fuel false (dropReturns s) =
        (rounds greedy a.prefixes fuel false s).map Match.dropReturns := by
  induction fuel generalizing s with
  | zero =>
    obtain rfl : s = [] := List.length_eq_zero_iff.mp (Nat.le_zero.mp h)
    refine ⟨fun m hm => ?_, rfl⟩
    rw [rounds, List.mem_singleton] at hm
    rw [hm]
    exact whole_nil []
  | succ fuel ih =>
    have hshort : ∀ m ∈ a.prefixes false s, m.taken ≠ [] → m.rest.length ≤ fuel := by
      intro m hm hne
      have hlen := congrArg List.length (prefixes_append a false s m hm)
      have hpos := List.length_pos_iff.mpr hne
      rw [List.length_append] at hlen
      omega
    have hwhole : ∀ m ∈ (a.prefixes false s).flatMap fun m =>
          if m.taken = [] then [] else (rounds greedy a.prefixes fuel false m.rest).map m.before,
        Whole m.taken m.rest := by
      intro m hm
      obtain ⟨first, hfirst, hm⟩ := List.mem_flatMap.mp hm
      split_ifs at hm with hempty
      · cases hm
      · obtain ⟨rest, hrest, rfl⟩ := List.mem_map.mp hm
        refine whole_before ((ih (hshort first hfirst hempty)).1 rest hrest) fun hnone => ?_
        have hsplit := rounds_append (prefixes_append a) fuel false first.rest rest hrest
        rw [hnone, List.nil_append] at hsplit
        exact hsplit ▸ (ha s).1 first hfirst
    have hmore : ((a.prefixes false (dropReturns s)).flatMap fun m =>
          if m.taken = [] then [] else (rounds greedy a.prefixes fuel false m.rest).map m.before) =
        ((a.prefixes false s).flatMap fun m =>
          if m.taken = [] then [] else
            (rounds greedy a.prefixes fuel false m.rest).map m.before).map Match.dropReturns := by
      rw [(ha s).2, List.flatMap_map, List.map_flatMap]
      refine List.flatMap_congr fun m hm => ?_
      rw [show m.dropReturns.taken = Text.dropReturns m.taken from rfl,
        show m.dropReturns.rest = Text.dropReturns m.rest from rfl]
      by_cases hempty : m.taken = []
      · rw [if_pos hempty, if_pos ((dropReturns_eq_nil _).mpr hempty)]
        rfl
      · rw [if_neg hempty, if_neg (mt (dropReturns_eq_nil _).mp hempty),
          (ih (hshort m hm hempty)).2, List.map_map, List.map_map]
        refine List.map_congr_left fun n hn => ?_
        exact (before_dropReturns ((ha s).1 m hm)
          (rounds_append (prefixes_append a) fuel false m.rest n hn)).symm
    rw [rounds, rounds, hmore]
    split_ifs
    · refine ⟨fun m hm => ?_, by rw [List.map_append]; rfl⟩
      rcases List.mem_append.mp hm with hm | hm
      · exact hwhole m hm
      · rw [List.mem_singleton.mp hm]
        exact whole_nil s
    · refine ⟨fun m hm => ?_, rfl⟩
      rcases List.mem_cons.mp hm with rfl | hm
      · exact whole_nil s
      · exact hwhole m hm

theorem stable_star {a : Regex} (ha : Stable a) (greedy : Bool) : Stable (.star greedy a) := by
  intro s
  have h := @stable_rounds greedy _ ha _ _ (Nat.le_refl s.length)
  refine ⟨h.1, ?_⟩
  rw [prefixes, prefixes, ← rounds_of_le (prefixes_append a) (dropReturns_length s)]
  exact h.2

/-! ## Runs of a class -/

/-- The expression does not match before a character of the class. -/
def Blocked (r : Regex) (p : Char → Bool) : Prop :=
  ∀ c s, p c = true → r.prefixes false (c :: s) = []

/-- Every way to match but the one that takes a whole run of the class is left
before a character of the class. -/
def Runs (r : Regex) (p : Char → Bool) (whole : Text → List Match) : Prop :=
  ∀ s, ∃ more, r.prefixes false s = whole s ++ more ∧
    ∀ m ∈ more, ∃ c t, m.rest = c :: t ∧ p c = true

/-- The match that takes a whole run, in the groups given. -/
def run (p : Char → Bool) (groups : Text → List (Nat × Text)) (s : Text) : Match :=
  { taken  := s.takeWhile p
    rest   := s.dropWhile p
    groups := groups (s.takeWhile p) }

theorem run_cons {p : Char → Bool} {c : Char} (hc : p c = true) (s : Text) :
    run p (fun _ => []) (c :: s) =
      Match.before { taken := [c], rest := s } (run p (fun _ => []) s) := by
  rw [run, run, Match.before, List.takeWhile_cons_of_pos hc, List.dropWhile_cons_of_pos hc]
  rfl

theorem many_cons_pos {p : Char → Bool} {c : Char} (hc : p c = true) (s : Text) :
    (many (.char p)).prefixes false (c :: s) =
      ((many (.char p)).prefixes false s).map (Match.before { taken := [c], rest := s }) ++
        [{ taken := [], rest := c :: s }] := by
  show rounds true (Regex.char p).prefixes (s.length + 1) false (c :: s) = _
  rw [rounds, if_pos rfl, prefixes, if_pos hc, List.flatMap_singleton,
    if_neg (List.cons_ne_nil _ _)]
  rfl

theorem many_cons_neg {p : Char → Bool} {c : Char} (hc : ¬ p c = true) (s : Text) :
    (many (.char p)).prefixes false (c :: s) = [{ taken := [], rest := c :: s }] := by
  show rounds true (Regex.char p).prefixes (s.length + 1) false (c :: s) = _
  rw [rounds, if_pos rfl, prefixes, if_neg hc]
  rfl

theorem runs_many (p : Char → Bool) :
    Runs (many (.char p)) p fun s => [run p (fun _ => []) s] := by
  intro s
  induction s with
  | nil => exact ⟨[], rfl, fun m hm => (by cases hm)⟩
  | cons c s ih =>
    by_cases hc : p c = true
    · obtain ⟨more, hprefixes, hmore⟩ := ih
      refine ⟨more.map (Match.before { taken := [c], rest := s }) ++
        [{ taken := [], rest := c :: s }], ?_, fun m hm => ?_⟩
      · dsimp only at hprefixes ⊢
        rw [many_cons_pos hc, hprefixes, run_cons hc, List.map_append, List.append_assoc]
        rfl
      · rcases List.mem_append.mp hm with hm | hm
        · obtain ⟨inner, hinner, rfl⟩ := List.mem_map.mp hm
          exact hmore inner hinner
        · rw [List.mem_singleton.mp hm]
          exact ⟨c, s, rfl, hc⟩
    · refine ⟨[], ?_, fun m hm => (by cases hm)⟩
      dsimp only [run]
      rw [many_cons_neg hc, List.takeWhile_cons_of_neg hc, List.dropWhile_cons_of_neg hc]
      rfl

theorem runs_plus (p : Char → Bool) :
    Runs (plus (.char p)) p fun s =>
      if s.takeWhile p = [] then [] else [run p (fun _ => []) s] := by
  intro s
  cases s with
  | nil => exact ⟨[], rfl, fun m hm => (by cases hm)⟩
  | cons c s =>
    by_cases hc : p c = true
    · obtain ⟨more, hprefixes, hmore⟩ := runs_many p s
      refine ⟨more.map (Match.before { taken := [c], rest := s }), ?_, fun m hm => ?_⟩
      · dsimp only at hprefixes ⊢
        rw [plus, prefixes, prefixes, if_pos hc, List.flatMap_singleton, Bool.false_and,
          List.takeWhile_cons_of_pos hc, if_neg (List.cons_ne_nil _ _), run_cons hc,
          show ((Regex.char p).star true).prefixes false s = _ from hprefixes, List.map_append]
        rfl
      · obtain ⟨inner, hinner, rfl⟩ := List.mem_map.mp hm
        exact hmore inner hinner
    · refine ⟨[], ?_, fun m hm => (by cases hm)⟩
      dsimp only
      rw [plus, prefixes, prefixes, if_neg hc, List.takeWhile_cons_of_neg hc, if_pos rfl]
      rfl

theorem runs_group {r : Regex} {p : Char → Bool} {whole : Text → List Match} (h : Runs r p whole)
    (n : Nat) :
    Runs (.group n r) p fun s =>
      (whole s).map fun m => { m with groups := (n, m.taken) :: m.groups } := by
  intro s
  obtain ⟨more, hprefixes, hmore⟩ := h s
  refine ⟨more.map fun m => { m with groups := (n, m.taken) :: m.groups }, ?_, fun m hm => ?_⟩
  · rw [prefixes, hprefixes, List.map_append]
  · obtain ⟨inner, hinner, rfl⟩ := List.mem_map.mp hm
    exact hmore inner hinner

theorem runs_seq {r k : Regex} {p : Char → Bool} {whole : Text → List Match} (hr : Runs r p whole)
    (hk : Blocked k p) (s : Text) :
    (Regex.seq r k).prefixes false s =
      (whole s).flatMap fun m => (k.prefixes false m.rest).map m.before := by
  obtain ⟨more, hprefixes, hmore⟩ := hr s
  have hnone : (more.flatMap fun m => (k.prefixes false m.rest).map m.before) = [] := by
    refine List.flatMap_eq_nil_iff.mpr fun m hm => ?_
    obtain ⟨c, t, hrest, hc⟩ := hmore m hm
    rw [hrest, hk c t hc]
    rfl
  rw [prefixes]
  simp only [Bool.false_and]
  rw [hprefixes, List.flatMap_append, hnone, List.append_nil]

theorem takeWhile_dropReturns {p : Char → Bool} (h : p '\r' = true) (h' : p '\n' = true) (s : Text) :
    (dropReturns s).takeWhile p = dropReturns (s.takeWhile p) ∧
      (dropReturns s).dropWhile p = dropReturns (s.dropWhile p) := by
  induction s with
  | nil => exact ⟨rfl, rfl⟩
  | cons c s ih =>
    by_cases hcrlf : c = '\r' ∧ s.head? = some '\n'
    · obtain ⟨rfl, hs⟩ := hcrlf
      obtain ⟨s, rfl⟩ : ∃ t, s = '\n' :: t := List.head?_eq_some_iff.mp hs
      rw [dropReturns, if_pos ⟨rfl, rfl⟩, ih.1, ih.2, List.takeWhile_cons_of_pos h,
        List.dropWhile_cons_of_pos h, List.takeWhile_cons_of_pos h', dropReturns_crlf,
        dropReturns_cons (by simp)]
      exact ⟨rfl, rfl⟩
    · rw [dropReturns_cons hcrlf]
      by_cases hc : p c = true
      · rw [List.takeWhile_cons_of_pos hc, List.dropWhile_cons_of_pos hc, List.takeWhile_cons_of_pos hc,
          List.dropWhile_cons_of_pos hc, ih.1, ih.2, dropReturns_cons]
        · exact ⟨rfl, rfl⟩
        · intro hhead
          refine hcrlf ⟨hhead.1, ?_⟩
          cases s with
          | nil => cases hhead.2
          | cons d s =>
            rw [List.takeWhile_cons] at hhead
            split_ifs at hhead with hd
            · exact hhead.2
            · cases hhead.2
      · rw [List.takeWhile_cons_of_neg hc, List.dropWhile_cons_of_neg hc, List.takeWhile_cons_of_neg hc,
          List.dropWhile_cons_of_neg hc, dropReturns_cons hcrlf]
        exact ⟨rfl, rfl⟩

def WholeStable (whole : Text → List Match) : Prop :=
  ∀ s, whole (dropReturns s) = (whole s).map Match.dropReturns ∧
    ∀ m ∈ whole s, m.rest.head? ≠ some '\n' ∧ m.taken ++ m.rest = s

theorem run_dropReturns {p : Char → Bool} (h : p '\r' = true) (h' : p '\n' = true) (s : Text) :
    run p (fun _ => []) (dropReturns s) = (run p (fun _ => []) s).dropReturns := by
  obtain ⟨htake, hdrop⟩ := takeWhile_dropReturns h h' s
  rw [run, htake, hdrop]
  rfl

theorem run_rest {p : Char → Bool} (h : p '\n' = true) (s : Text) :
    (run p (fun _ => []) s).rest.head? ≠ some '\n' := by
  intro hhead
  have hnot := List.head?_dropWhile_not p s
  rw [show s.dropWhile p = (run p (fun _ => []) s).rest from rfl, hhead] at hnot
  exact Bool.false_ne_true (hnot.symm.trans h)

theorem wholeStable_many {p : Char → Bool} (h : p '\r' = true) (h' : p '\n' = true) :
    WholeStable fun s => [run p (fun _ => []) s] := by
  refine fun s => ⟨congrArg (fun m => [m]) (run_dropReturns h h' s), fun m hm => ?_⟩
  rw [List.mem_singleton.mp hm]
  exact ⟨run_rest h' s, List.takeWhile_append_dropWhile⟩

theorem wholeStable_plus {p : Char → Bool} (h : p '\r' = true) (h' : p '\n' = true) :
    WholeStable fun s => if s.takeWhile p = [] then [] else [run p (fun _ => []) s] := by
  intro s
  dsimp only
  rw [(takeWhile_dropReturns h h' s).1, run_dropReturns h h']
  by_cases hempty : s.takeWhile p = []
  · rw [if_pos hempty, if_pos ((dropReturns_eq_nil _).mpr hempty)]
    exact ⟨rfl, fun m hm => (by cases hm)⟩
  · rw [if_neg hempty, if_neg (mt (dropReturns_eq_nil _).mp hempty)]
    refine ⟨rfl, fun m hm => ?_⟩
    rw [List.mem_singleton.mp hm]
    exact ⟨run_rest h' s, List.takeWhile_append_dropWhile⟩

theorem wholeStable_group {whole : Text → List Match} (h : WholeStable whole) (n : Nat) :
    WholeStable fun s => (whole s).map fun m => { m with groups := (n, m.taken) :: m.groups } := by
  intro s
  dsimp only
  refine ⟨?_, fun m hm => ?_⟩
  · rw [(h s).1, List.map_map, List.map_map]
    rfl
  · obtain ⟨inner, hinner, rfl⟩ := List.mem_map.mp hm
    exact (h s).2 inner hinner

theorem stable_runs {r k : Regex} {p : Char → Bool} {whole : Text → List Match}
    (hr : Runs r p whole) (hwhole : WholeStable whole) (hblocked : Blocked k p) (hk : Stable k) :
    Stable (.seq r k) := by
  intro s
  rw [runs_seq hr hblocked, runs_seq hr hblocked, (hwhole s).1, List.flatMap_map, List.map_flatMap]
  refine ⟨fun m hm => ?_, List.flatMap_congr fun m hm => ?_⟩
  · obtain ⟨first, hfirst, hm⟩ := List.mem_flatMap.mp hm
    obtain ⟨rest, hrest, rfl⟩ := List.mem_map.mp hm
    refine whole_before ((hk first.rest).1 rest hrest) fun hempty h => ?_
    have hsplit := prefixes_append k false first.rest rest hrest
    rw [hempty, List.nil_append] at hsplit
    exact ((hwhole s).2 first hfirst).1 (hsplit ▸ h.2)
  · rw [show m.dropReturns.rest = Text.dropReturns m.rest from rfl, (hk m.rest).2, List.map_map,
      List.map_map]
    refine List.map_congr_left fun n hn => ?_
    exact (before_dropReturns (fun h => ((hwhole s).2 m hm).1 h.2)
      (prefixes_append k false m.rest n hn)).symm

/-! ## A shortest piece of any text -/

/-- The matches of `k` after every piece of the text, the shortest first; the piece
follows `u` in group `n`. -/
def afterAny (k : Regex) (n : Nat) (u : Text) : Text → List Match
  | [] => (k.prefixes false []).map (Match.before { taken := u, rest := [], groups := [(n, u)] })
  | c :: s =>
    (k.prefixes false (c :: s)).map
        (Match.before { taken := u, rest := c :: s, groups := [(n, u)] }) ++
      k.afterAny n (u ++ [c]) s

theorem lazyMany_cons (c : Char) (s : Text) :
    (lazyMany anyChar).prefixes false (c :: s) =
      { taken := [], rest := c :: s } ::
        ((lazyMany anyChar).prefixes false s).map (Match.before { taken := [c], rest := s }) := by
  show rounds false anyChar.prefixes (s.length + 1) false (c :: s) = _
  rw [rounds, if_neg Bool.false_ne_true]
  refine congrArg (List.cons _) ?_
  show ((if true = true then [_] else []).flatMap fun m => _) = _
  rw [if_pos rfl, List.flatMap_singleton, if_neg (List.cons_ne_nil _ _)]
  rfl

theorem seq_lazyMany (k : Regex) (n : Nat) (u s : Text) :
    ((lazyMany anyChar).prefixes false s).flatMap (fun m =>
        (k.prefixes false m.rest).map (Match.before
          { taken := u ++ m.taken, rest := m.rest, groups := (n, u ++ m.taken) :: m.groups })) =
      k.afterAny n u s := by
  induction s generalizing u with
  | nil =>
    rw [show (lazyMany anyChar).prefixes false [] = [{ taken := [], rest := [] }] from rfl,
      List.flatMap_singleton, afterAny, List.append_nil]
  | cons c s ih =>
    rw [lazyMany_cons, List.flatMap_cons, List.flatMap_map, afterAny, List.append_nil, ← ih]
    refine congrArg (_ ++ ·) (List.flatMap_congr fun m _ => ?_)
    simp only [Match.before, List.append_assoc, List.append_nil]

theorem seq_group_lazyMany (k : Regex) (n : Nat) (s : Text) :
    (Regex.seq (.group n (lazyMany anyChar)) k).prefixes false s = k.afterAny n [] s := by
  rw [← seq_lazyMany, prefixes, prefixes, List.flatMap_map]
  rfl

theorem afterAny_stable {k : Regex} (hk : Stable k) (hsolid : k.Solid) (n : Nat) (u s : Text)
    (hus : Whole u s) :
    (∀ m ∈ k.afterAny n u s, Whole m.taken m.rest) ∧
      k.afterAny n (dropReturns u) (dropReturns s) =
        (k.afterAny n u s).map Match.dropReturns := by
  have hat : ∀ u s, Whole u s →
      (∀ m ∈ (k.prefixes false s).map
        (Match.before { taken := u, rest := s, groups := [(n, u)] }), Whole m.taken m.rest) ∧
      (k.prefixes false (dropReturns s)).map (Match.before
          { taken := dropReturns u, rest := dropReturns s, groups := [(n, dropReturns u)] }) =
        ((k.prefixes false s).map
          (Match.before { taken := u, rest := s, groups := [(n, u)] })).map Match.dropReturns := by
    intro u s hus
    refine ⟨fun m hm => ?_, ?_⟩
    · obtain ⟨rest, hrest, rfl⟩ := List.mem_map.mp hm
      refine whole_before ((hk s).1 rest hrest) fun hempty => ?_
      have hsplit := prefixes_append k false s rest hrest
      rw [hempty, List.nil_append] at hsplit
      exact hsplit ▸ hus
    · rw [(hk s).2, List.map_map, List.map_map]
      refine List.map_congr_left fun m hm => ?_
      exact (@before_dropReturns { taken := u, rest := s, groups := [(n, u)] } m hus
        (prefixes_append k false s m hm)).symm
  induction hs : s.length using Nat.strong_induction_on generalizing u s with
  | _ len ih =>
    cases s with
    | nil => exact hat u [] hus
    | cons c s =>
      by_cases hcrlf : c = '\r' ∧ s.head? = some '\n'
      · obtain ⟨rfl, hhead⟩ := hcrlf
        obtain ⟨s, rfl⟩ : ∃ t, s = '\n' :: t := List.head?_eq_some_iff.mp hhead
        -- nothing matches at either half of a line ending
        have hfeed := hsolid s
        have hreturn : k.prefixes false ('\r' :: '\n' :: s) = [] := by
          have h := (hk ('\r' :: '\n' :: s)).2
          rw [dropReturns_crlf, hsolid] at h
          exact List.map_eq_nil_iff.mp h.symm
        have hu : dropReturns (u ++ ['\r'] ++ ['\n']) = dropReturns u ++ ['\n'] := by
          rw [List.append_assoc, dropReturns_append fun h => (by cases h.2)]
          exact congrArg _ (dropReturns_crlf [])
        have hwhole : Whole (u ++ ['\r'] ++ ['\n']) s := fun h => by
          rw [List.getLast?_concat] at h
          exact absurd (Option.some.inj h.1) (by decide)
        have hrest := ih s.length (by rw [← hs]; simp) (u ++ ['\r'] ++ ['\n']) s hwhole rfl
        rw [hu] at hrest
        rw [dropReturns_crlf, afterAny, afterAny, afterAny, hreturn, hfeed, hsolid]
        exact hrest
      · obtain ⟨hwhole, hmap⟩ := hat u (c :: s) hus
        have hu : dropReturns (u ++ [c]) = dropReturns u ++ [c] := by
          have hone : Whole u [c] := fun h => hus ⟨h.1, h.2⟩
          rw [dropReturns_append hone, dropReturns_cons (by simp)]
          rfl
        have huc : Whole (u ++ [c]) s := fun h => by
          rw [List.getLast?_concat] at h
          exact hcrlf ⟨Option.some.inj h.1, h.2⟩
        have hrest := ih s.length (by rw [← hs]; simp) (u ++ [c]) s huc rfl
        rw [hu] at hrest
        rw [dropReturns_cons hcrlf] at hmap ⊢
        rw [afterAny, afterAny, hmap, hrest.2, List.map_append]
        refine ⟨fun m hm => ?_, rfl⟩
        rcases List.mem_append.mp hm with hm | hm
        · exact hwhole m hm
        · exact hrest.1 m hm

theorem stable_lazyMany {k : Regex} (hk : Stable k) (hsolid : k.Solid) (n : Nat) :
    Stable (.seq (.group n (lazyMany anyChar)) k) := by
  intro s
  rw [seq_group_lazyMany, seq_group_lazyMany]
  exact afterAny_stable hk hsolid n [] s (whole_nil s)

/-! ## Searching without the returns -/

theorem locate_dropReturns {r : Regex} (hr : Stable r) (hsolid : r.Solid) (s : Text) :
    r.locate (dropReturns s) =
      (r.locate s).map fun found => (dropReturns found.1, found.2.dropReturns) := by
  induction s with
  | nil =>
    show (r.prefixes false []).head?.map (Prod.mk []) = ((r.prefixes false []).head?.map
      (Prod.mk [])).map fun found => (dropReturns found.1, found.2.dropReturns)
    have h := (hr []).2
    rw [show dropReturns [] = [] from rfl] at h
    conv_lhs => rw [h]
    rw [List.head?_map, Option.map_map, Option.map_map]
    rfl
  | cons c s ih =>
    have hmap := (hr (c :: s)).2
    by_cases hcrlf : c = '\r' ∧ s.head? = some '\n'
    · obtain ⟨rfl, hhead⟩ := hcrlf
      obtain ⟨s, rfl⟩ : ∃ t, s = '\n' :: t := List.head?_eq_some_iff.mp hhead
      rw [dropReturns_crlf, hsolid] at hmap
      have hdrop : dropReturns ('\r' :: '\n' :: s) = dropReturns ('\n' :: s) := by
        rw [dropReturns, if_pos ⟨rfl, rfl⟩]
      rw [hdrop, ih, locate_newline hsolid, show r.locate ('\r' :: '\n' :: s) =
        (r.locate ('\n' :: s)).map fun found => ('\r' :: found.1, found.2) by
          rw [locate, List.map_eq_nil_iff.mp hmap.symm]
          rfl, locate_newline hsolid, Option.map_map, Option.map_map, Option.map_map]
      refine congrArg (Option.map · (r.locate s)) (funext fun found => ?_)
      simp only [Function.comp_apply]
      rw [dropReturns_crlf, dropReturns_cons (by simp)]
    · rw [dropReturns_cons hcrlf] at hmap ⊢
      rw [locate, locate, hmap, List.head?_map]
      cases hhead : (r.prefixes false (c :: s)).head? with
      | some m => rfl
      | none =>
        dsimp only [Option.map_none]
        rw [ih, Option.map_map, Option.map_map]
        cases hfound : r.locate s with
        | none => rfl
        | some found =>
          have hgap : ¬ (c = '\r' ∧ found.1.head? = some '\n') := by
            intro h
            refine hcrlf ⟨h.1, ?_⟩
            rw [← locate_append hfound, List.append_assoc, List.head?_append, h.2]
            rfl
          simp only [Option.map_some, Function.comp_apply]
          rw [dropReturns_cons hgap]

def Placed.dropReturns (p : Placed) : Placed :=
  { p with
    taken  := Text.dropReturns p.taken
    groups := p.groups.map fun g => (g.1, Text.dropReturns g.2) }

theorem placed_dropReturns (line : Nat) (gap : Text) (m : Match) :
    Placed.at line (Text.dropReturns gap) m.dropReturns = (Placed.at line gap m).dropReturns := by
  rw [Placed.at, Placed.dropReturns]
  dsimp only [Placed.at, Match.dropReturns]
  rw [dropReturns_count, dropReturns_count]

theorem place_dropReturns {r : Regex} (hr : r.unanchored = true) (htaking : r.Taking)
    (hsolid : r.Solid) (hstable : Stable r) (line : Nat) (s : Text) :
    r.place line (dropReturns s) = (r.place line s).map Placed.dropReturns := by
  induction hs : s.length using Nat.strong_induction_on generalizing line s with
  | _ n ih =>
    rw [place_eq hr htaking, place_eq hr htaking line s, locate_dropReturns hstable hsolid]
    cases hfound : r.locate s with
    | none => rfl
    | some found =>
      have hrest := ih found.2.rest.length (hs ▸ locate_rest_length hr htaking hfound)
        (Placed.at line found.1 found.2).last found.2.rest rfl
      dsimp only [Option.map_some]
      rw [placed_dropReturns, List.map_cons, ← hrest]
      rfl

end Regex
end CmTrace
