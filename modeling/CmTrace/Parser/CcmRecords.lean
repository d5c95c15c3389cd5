import CmTrace.Parser.CcmScan

/-!
# What the scan of configuration manager records finds

The records of the public projection are the successive matches of the expression,
each on the line it begins on.
-/

namespace CmTrace
namespace Parser
namespace Ccm

open Text Log Time
open Regex (Stable Single Settled Blocked Begins chain word many plus between opt space anyBut
  asciiDigit)

/-! ## The expression -/

theorem blocked_chain {c : Char} {p : Char → Bool} (hc : p c = false) (w : Text)
    (rs : List Regex) : Blocked (chain (word (c :: w) :: rs)) p :=
  Regex.blocked_word hc w (chain rs)

theorem stable_digit : Stable asciiDigit := Regex.stable_char rfl rfl

theorem stable_between (low high : Nat) : Stable (between low high asciiDigit) := by
  have htimes : ∀ n, Stable (Regex.times n asciiDigit) := by
    intro n
    induction n with
    | zero => exact Regex.stable_empty
    | succ n ih => exact Regex.stable_seq stable_digit ih
  have hupTo : ∀ n, Stable (asciiDigit.upTo n) := by
    intro n
    induction n with
    | zero => exact Regex.stable_empty
    | succ n ih => exact Regex.stable_alt (Regex.stable_seq stable_digit ih) Regex.stable_empty
  exact Regex.stable_seq (htimes low) (hupTo (high - low))

theorem stable_plus_digit : Stable (plus asciiDigit) :=
  Regex.stable_seq stable_digit (Regex.stable_star stable_digit true)

theorem stable_timeTail : Stable timeTailRe :=
  Regex.stable_seq stable_plus_digit (Regex.stable_alt
    (Regex.stable_seq (Regex.stable_char rfl rfl) stable_plus_digit) Regex.stable_empty)

theorem stable_spaces {k : Regex} (hblocked : Blocked k isWhitespace) (hk : Stable k) :
    Stable (.seq (plus space) k) :=
  Regex.stable_runs (Regex.runs_plus isWhitespace) (Regex.wholeStable_plus rfl rfl) hblocked hk

theorem stable_quoted {k : Regex} (n : Nat) (hblocked : Blocked k fun c => c != '"')
    (hk : Stable k) : Stable (.seq (.group n (many (anyBut '"'))) k) :=
  Regex.stable_runs (Regex.runs_group (Regex.runs_many fun c => c != '"') n)
    (Regex.wholeStable_group (Regex.wholeStable_many rfl rfl) n) hblocked hk

theorem stable_word_seq {w : Text} {k : Regex} (hw : ('\r' ∈ w ∨ '\n' ∈ w) → False)
    (hk : Stable k) : Stable (.seq (word w) k) :=
  Regex.stable_seq (Regex.stable_word (fun h => hw (.inl h)) fun h => hw (.inr h)) hk

theorem stable_fileRe : Stable fileRe := by
  refine stable_spaces (blocked_chain rfl _ _) ?_
  refine stable_word_seq (by decide) ?_
  refine stable_quoted 13 (blocked_chain rfl _ _) ?_
  exact stable_word_seq (by decide) Regex.stable_empty

theorem stable_ccmAttributes : Stable ccmAttributes := by
  have hnumber : ∀ n low high k, Stable k → Stable (.seq (.group n (between low high asciiDigit)) k) :=
    fun n low high k hk => Regex.stable_seq (Regex.stable_group (stable_between low high) n) hk
  refine stable_word_seq (by decide) ?_
  refine hnumber 2 1 2 _ (stable_word_seq (by decide) ?_)
  refine hnumber 3 1 2 _ (stable_word_seq (by decide) ?_)
  refine hnumber 4 1 2 _ (stable_word_seq (by decide) ?_)
  refine Regex.stable_seq (Regex.stable_group stable_timeTail 5) (stable_word_seq (by decide) ?_)
  refine stable_spaces (blocked_chain rfl _ _) (stable_word_seq (by decide) ?_)
  refine hnumber 6 1 2 _ (stable_word_seq (by decide) ?_)
  refine hnumber 7 1 2 _ (stable_word_seq (by decide) ?_)
  refine hnumber 8 4 4 _ (stable_word_seq (by decide) ?_)
  refine stable_spaces (blocked_chain rfl _ _) (stable_word_seq (by decide) ?_)
  refine stable_quoted 9 (blocked_chain rfl _ _) (stable_word_seq (by decide) ?_)
  refine stable_spaces (blocked_chain rfl _ _) (stable_word_seq (by decide) ?_)
  refine stable_quoted 10 (blocked_chain rfl _ _) (stable_word_seq (by decide) ?_)
  refine stable_spaces (blocked_chain rfl _ _) (stable_word_seq (by decide) ?_)
  refine Regex.stable_seq (Regex.stable_alt (Regex.stable_group stable_digit 11) Regex.stable_empty)
    (stable_word_seq (by decide) ?_)
  refine stable_spaces (blocked_chain rfl _ _) (stable_word_seq (by decide) ?_)
  refine Regex.stable_seq (Regex.stable_alt (Regex.stable_group stable_plus_digit 12)
    Regex.stable_empty) (stable_word_seq (by decide) ?_)
  refine Regex.stable_seq (Regex.stable_alt stable_fileRe Regex.stable_empty) ?_
  exact stable_word_seq (by decide) Regex.stable_empty

theorem ccmRe_unanchored : ccmRe.unanchored = true := rfl

theorem ccmRe_taking : ccmRe.Taking := rfl

theorem ccmRe_solid : ccmRe.Solid := fun s =>
  @Regex.blocked_word '<' (fun c => c == '\n') rfl "![LOG[".toList _ '\n' s rfl

theorem ccmAttributes_solid : ccmAttributes.Solid := fun s =>
  @Regex.blocked_word ']' (fun c => c == '\n') rfl "LOG]!><time=\"".toList _ '\n' s rfl

theorem ccmRe_stable : Stable ccmRe :=
  stable_word_seq (by decide) (Regex.stable_lazyMany stable_ccmAttributes ccmAttributes_solid 1)

theorem single_pass {r k : Regex} (hr : Single r) (hk : Single k) : Single (.seq r k) :=
  Regex.single_seq (hr.settled fun _ => false) hk fun _ _ h => (by cases h)

theorem single_word_seq (w : Text) {k : Regex} (hk : Single k) : Single (.seq (word w) k) :=
  single_pass (Regex.single_word w) hk

theorem settled_plus (p : Char → Bool) : Settled (plus (.char p)) p := by
  refine (Regex.runs_plus p).settled fun s => ?_
  split_ifs
  · exact Nat.zero_le _
  · exact Nat.le_refl _

theorem single_spaces {k : Regex} (hblocked : Blocked k isWhitespace) (hk : Single k) :
    Single (.seq (plus space) k) :=
  Regex.single_seq (settled_plus isWhitespace) hk hblocked

theorem single_quoted {k : Regex} (n : Nat) (hblocked : Blocked k fun c => c != '"')
    (hk : Single k) : Single (.seq (.group n (many (anyBut '"'))) k) :=
  Regex.single_seq (Regex.settled_group
    ((Regex.runs_many fun c => c != '"').settled fun _ => Nat.le_refl _) n) hk hblocked

theorem single_number {k : Regex} (n : Nat) (hblocked : Blocked k isAsciiDigit) (hk : Single k) :
    Single (.seq (.group n (between 1 2 asciiDigit)) k) :=
  Regex.single_seq (Regex.settled_group (Regex.settled_between_one_two isAsciiDigit) n) hk hblocked

theorem single_four_digits : Single (between 4 4 asciiDigit) := by
  have hdigit : Single asciiDigit := Regex.single_char isAsciiDigit
  exact single_pass (single_pass hdigit (single_pass hdigit (single_pass hdigit
    (single_pass hdigit Regex.single_empty)))) Regex.single_empty

def isSign (c : Char) : Bool := c == '+' || c == '-'

theorem settled_timeTail : Settled timeTailRe fun c => isAsciiDigit c || isSign c := by
  have hoffset : Settled (.seq (.char isSign) (plus asciiDigit))
      fun c => isAsciiDigit c || isSign c :=
    Regex.settled_seq ((Regex.single_char isSign).settled fun _ => false)
      ((settled_plus isAsciiDigit).mono fun c hc => by rw [hc]; rfl) fun _ _ h => (by cases h)
  have hbegins : Begins (.seq (.char isSign) (plus asciiDigit)) fun c => isAsciiDigit c || isSign c := by
    intro s hs
    have hsign := Regex.begins_seq (Regex.begins_char isSign) _ s hs
    rw [Regex.before, Option.any_eq_true] at hsign ⊢
    obtain ⟨c, hc, hsign⟩ := hsign
    exact ⟨c, hc, by rw [hsign, Bool.or_true]⟩
  refine Regex.settled_seq (settled_plus isAsciiDigit) (Regex.settled_opt hoffset hbegins) ?_
  -- before a digit there is no offset, and the digit is what is left
  intro c s hc m hm
  have hsign : isSign c = false := by
    rw [isSign, Bool.or_eq_false_iff, beq_eq_false_iff_ne, beq_eq_false_iff_ne]
    constructor <;> rintro rfl <;> cases hc
  rcases List.mem_append.mp hm with hm | hm
  · rw [Regex.prefixes, Regex.prefixes,
      show (c == '+' || c == '-') = false from hsign] at hm
    cases hm
  · rw [List.mem_singleton.mp hm, Regex.before, List.head?_cons, Option.any_some, hc]
    rfl

theorem single_fileRe : Single fileRe :=
  single_spaces (blocked_chain rfl _ _) <| single_word_seq _ <|
    single_quoted 13 (blocked_chain rfl _ _) <| single_word_seq _ Regex.single_empty

theorem single_ccmAttributes : Single ccmAttributes := by
  refine single_word_seq _ (single_number 2 (blocked_chain rfl _ _) (single_word_seq _ ?_))
  refine single_number 3 (blocked_chain rfl _ _) (single_word_seq _ ?_)
  refine single_number 4 (blocked_chain rfl _ _) (single_word_seq _ ?_)
  refine Regex.single_seq (Regex.settled_group settled_timeTail 5) (single_word_seq _ ?_)
    (blocked_chain rfl _ _)
  refine single_spaces (blocked_chain rfl _ _) (single_word_seq _ ?_)
  refine single_number 6 (blocked_chain rfl _ _) (single_word_seq _ ?_)
  refine single_number 7 (blocked_chain rfl _ _) (single_word_seq _ ?_)
  refine single_pass (fun s => ?_) (single_word_seq _ ?_)
  · rw [Regex.prefixes, List.length_map]
    exact single_four_digits s
  refine single_spaces (blocked_chain rfl _ _) (single_word_seq _ ?_)
  refine single_quoted 9 (blocked_chain rfl _ _) (single_word_seq _ ?_)
  refine single_spaces (blocked_chain rfl _ _) (single_word_seq _ ?_)
  refine single_quoted 10 (blocked_chain rfl _ _) (single_word_seq _ ?_)
  refine single_spaces (blocked_chain rfl _ _) (single_word_seq _ ?_)
  refine Regex.single_seq (Regex.settled_opt (Regex.settled_group
      ((Regex.single_char isAsciiDigit).settled _) 11) (Regex.begins_group (Regex.begins_char _) 11))
    (single_word_seq _ ?_) (blocked_chain rfl _ _)
  refine single_spaces (blocked_chain rfl _ _) (single_word_seq _ ?_)
  refine Regex.single_seq (Regex.settled_opt (Regex.settled_group (settled_plus isAsciiDigit) 12)
    (Regex.begins_group (Regex.begins_seq (Regex.begins_char _) _) 12)) (single_word_seq _ ?_)
    (blocked_chain rfl _ _)
  refine Regex.single_seq (Regex.settled_opt (single_fileRe.settled isWhitespace)
    (Regex.begins_seq (Regex.begins_seq (Regex.begins_char _) _) _))
    (single_word_seq _ Regex.single_empty) (blocked_chain rfl _ _)

/-! ## The groups of a record can be read -/

theorem digitsFrom_isSome {limit : Nat} : ∀ {acc : Nat} {s : Text},
    (∀ c ∈ s, isAsciiDigit c = true) → (acc + 1) * 10 ^ s.length ≤ limit + 1 →
      (digitsFrom 10 limit acc s).isSome = true
  | _, [], _, _ => rfl
  | acc, c :: s, hdigits, hlimit => by
    have hc : isAsciiDigit c = true := hdigits c (List.mem_cons_self ..)
    rw [isAsciiDigit, Char.isDigit, Bool.and_eq_true, decide_eq_true_eq, decide_eq_true_eq] at hc
    have hlow : 48 ≤ c.toNat := hc.1
    have hhigh : c.toNat ≤ 57 := hc.2
    have hdigit : digit 10 c = some (c.toNat - 48) := by
      rw [digit, if_pos ⟨hlow, hhigh⟩, Option.filter_some, if_pos (by rw [decide_eq_true_eq]; omega)]
    have hnext : (acc * 10 + (c.toNat - 48) + 1) * 10 ^ s.length ≤ limit + 1 := by
      refine le_trans ?_ hlimit
      rw [List.length_cons, Nat.pow_succ', ← Nat.mul_assoc]
      exact Nat.mul_le_mul_right _ (by omega)
    have hle : acc * 10 + (c.toNat - 48) ≤ limit := by
      have hpos : 0 < 10 ^ s.length := Nat.pow_pos (by omega)
      have := Nat.le_mul_of_pos_right (acc * 10 + (c.toNat - 48) + 1) hpos
      omega
    rw [digitsFrom, hdigit]
    dsimp only
    rw [if_pos hle]
    exact digitsFrom_isSome (fun d hd => hdigits d (List.mem_cons_of_mem _ hd)) hnext

/-- Digits, as many as given. -/
structure Digits (low high : Nat) (s : Text) : Prop where
  digits : ∀ c ∈ s, isAsciiDigit c = true
  low : low ≤ s.length
  high : s.length ≤ high

theorem Digits.parseUnsigned_isSome {limit low high : Nat} {s : Text} (h : Digits low high s)
    (hlow : 0 < low) (hlimit : 10 ^ high ≤ limit + 1) : (parseUnsigned 10 limit s).isSome = true := by
  have hfrom : (digitsFrom 10 limit 0 s).isSome = true := by
    refine digitsFrom_isSome h.digits ?_
    rw [Nat.zero_add, Nat.one_mul]
    exact le_trans (Nat.pow_le_pow_right (by omega) h.high) hlimit
  cases s with
  | nil => exact absurd (Nat.lt_of_lt_of_le hlow h.low) (Nat.lt_irrefl 0)
  | cons c s =>
    have hplus : c ≠ '+' := by
      rintro rfl
      cases h.digits '+' (List.mem_cons_self ..)
    rw [parseUnsigned]
    · exact hfrom
    · exact fun h' => List.cons_ne_nil _ _ h'
    · intro rest h'
      exact hplus (List.cons.inj h').1

theorem Digits.parseU32_isSome {low high : Nat} {s : Text} (h : Digits low high s) (hlow : 0 < low)
    (hhigh : high ≤ 9) : (parseU32 s).isSome = true :=
  h.parseUnsigned_isSome hlow
    (le_trans (Nat.pow_le_pow_right (by omega) hhigh) (by rw [u32Max]; omega))

theorem Digits.parseI32_isSome {low high : Nat} {s : Text} (h : Digits low high s) (hlow : 0 < low)
    (hhigh : high ≤ 9) : (parseI32 s).isSome = true := by
  have hsome : (parseUnsigned 10 (2 ^ 31 - 1) s).isSome = true :=
    h.parseUnsigned_isSome hlow (le_trans (Nat.pow_le_pow_right (by omega) hhigh) (by omega))
  rw [parseI32]
  · obtain ⟨n, hn⟩ := Option.isSome_iff_exists.mp hsome
    rw [hn]
    rfl
  · intro rest hs
    have hmem := h.digits '-' (hs ▸ List.mem_cons_self ..)
    cases hmem

theorem truncateSubsecondToMillis_isSome {s : Text} (hdigits : ∀ c ∈ s, isAsciiDigit c = true)
    (hne : s ≠ []) : (truncateSubsecondToMillis s).isSome = true := by
  have hpos := List.length_pos_iff.mpr hne
  rw [truncateSubsecondToMillis]
  split
  · next hlen =>
    rw [Option.isSome_map]
    exact @Digits.parseU32_isSome 1 1 _ ⟨hdigits, by omega, by omega⟩ (by omega) (by omega)
  · next hlen =>
    rw [Option.isSome_map]
    exact @Digits.parseU32_isSome 1 2 _ ⟨hdigits, by omega, by omega⟩ (by omega) (by omega)
  · next hone htwo =>
    have hthree : ¬ s.length < 3 := by
      have hone' : s.length ≠ 1 := hone
      have htwo' : s.length ≠ 2 := htwo
      omega
    rw [if_neg hthree]
    refine @Digits.parseU32_isSome 1 3 _
      ⟨fun c hc => hdigits c (List.mem_of_mem_take hc), ?_, ?_⟩ (by omega) (by omega)
    · rw [List.length_take]; omega
    · rw [List.length_take]; omega

/-- Every match has the group, and its text has the property. -/
def Captures (r : Regex) (n : Nat) (P : Text → Prop) : Prop :=
  ∀ s, ∀ m ∈ r.prefixes false s, ∃ t, m.group n = some t ∧ P t

theorem captures_seq {k : Regex} {n : Nat} {P : Text → Prop} (a : Regex) (h : Captures k n P) :
    Captures (.seq a k) n P := by
  intro s m hm
  obtain ⟨first, hfirst, hm⟩ := List.mem_flatMap.mp hm
  obtain ⟨rest, hrest, rfl⟩ := List.mem_map.mp hm
  rw [Bool.false_and] at hrest
  obtain ⟨t, ht, hP⟩ := h first.rest rest hrest
  refine ⟨t, ?_, hP⟩
  rw [Regex.Match.group] at ht ⊢
  rw [Regex.Match.before, List.lookup_append, ht]
  rfl

theorem captures_here {r k : Regex} {n : Nat} {P : Text → Prop}
    (h : ∀ s, ∀ m ∈ r.prefixes false s, P m.taken) (hn : n ∉ k.numbers) :
    Captures (.seq (.group n r) k) n P := by
  intro s m hm
  obtain ⟨first, hfirst, hm⟩ := List.mem_flatMap.mp hm
  obtain ⟨rest, hrest, rfl⟩ := List.mem_map.mp hm
  obtain ⟨inner, hinner, rfl⟩ := List.mem_map.mp hfirst
  refine ⟨inner.taken, ?_, h s inner hinner⟩
  have hnone : rest.groups.lookup n = none := by
    rw [List.lookup_eq_none_iff]
    intro g hg
    have hne : n ≠ g.1 := fun h => hn (h ▸ Regex.prefixes_numbers k _ _ rest hrest g hg)
    simpa using hne
  rw [Regex.Match.group, Regex.Match.before, List.lookup_append, hnone, List.lookup_cons_self]
  rfl

theorem taken_digit {s : Text} {m : Regex.Match} (hm : m ∈ asciiDigit.prefixes false s) :
    Digits 1 1 m.taken := by
  cases s with
  | nil => cases hm
  | cons c s =>
    rw [asciiDigit, Regex.prefixes] at hm
    split_ifs at hm with hc
    · rw [List.mem_singleton.mp hm]
      exact ⟨fun d hd => (List.mem_singleton.mp hd) ▸ hc, Nat.le_refl _, Nat.le_refl _⟩
    · cases hm

theorem Digits.append {a b c d : Nat} {s t : Text} (hs : Digits a b s) (ht : Digits c d t) :
    Digits (a + c) (b + d) (s ++ t) :=
  { digits := fun x hx => (List.mem_append.mp hx).elim (hs.digits x) (ht.digits x)
    low    := by rw [List.length_append]; exact Nat.add_le_add hs.low ht.low
    high   := by rw [List.length_append]; exact Nat.add_le_add hs.high ht.high }

theorem digits_nil (n : Nat) : Digits 0 n [] := ⟨fun c hc => (by cases hc), Nat.le_refl _, Nat.zero_le _⟩

theorem taken_seq {a b : Regex} {P Q : Text → Prop} (ha : ∀ s, ∀ m ∈ a.prefixes false s, P m.taken)
    (hb : ∀ s, ∀ m ∈ b.prefixes false s, Q m.taken) :
    ∀ s, ∀ m ∈ (Regex.seq a b).prefixes false s, ∃ x y, m.taken = x ++ y ∧ P x ∧ Q y := by
  intro s m hm
  obtain ⟨first, hfirst, hm⟩ := List.mem_flatMap.mp hm
  obtain ⟨rest, hrest, rfl⟩ := List.mem_map.mp hm
  exact ⟨first.taken, rest.taken, rfl, ha s first hfirst, hb _ rest hrest⟩

theorem taken_between (low high : Nat) (hle : low ≤ high) :
    ∀ s, ∀ m ∈ (between low high asciiDigit).prefixes false s, Digits low high m.taken := by
  have htimes : ∀ n s, ∀ m ∈ (Regex.times n asciiDigit).prefixes false s, Digits n n m.taken := by
    intro n
    induction n with
    | zero =>
      intro s m hm
      rw [List.mem_singleton.mp hm]
      exact digits_nil 0
    | succ n ih =>
      intro s m hm
      obtain ⟨x, y, htaken, hx, hy⟩ := taken_seq (fun s m hm => taken_digit hm) ih s m hm
      rw [htaken, Nat.add_comm n]
      exact hx.append hy
  have hupTo : ∀ n s, ∀ m ∈ (asciiDigit.upTo n).prefixes false s, Digits 0 n m.taken := by
    intro n
    induction n with
    | zero =>
      intro s m hm
      rw [List.mem_singleton.mp hm]
      exact digits_nil 0
    | succ n ih =>
      intro s m hm
      rcases List.mem_append.mp hm with hm | hm
      · obtain ⟨x, y, htaken, hx, hy⟩ := taken_seq (fun s m hm => taken_digit hm) ih s m hm
        rw [htaken]
        have h := hx.append hy
        exact ⟨h.digits, Nat.zero_le _, Nat.add_comm n 1 ▸ h.high⟩
      · rw [List.mem_singleton.mp hm]
        exact digits_nil _
  intro s m hm
  obtain ⟨x, y, htaken, hx, hy⟩ := taken_seq (htimes low) (hupTo (high - low)) s m hm
  rw [htaken]
  have h := hx.append hy
  rwa [Nat.add_zero, Nat.add_sub_cancel' hle] at h

theorem taken_many (p : Char → Bool) (s : Text) :
    ∀ m ∈ (many (.char p)).prefixes false s, ∀ c ∈ m.taken, p c = true := by
  induction s with
  | nil =>
    intro m hm c hc
    rw [List.mem_singleton.mp hm] at hc
    cases hc
  | cons d s ih =>
    intro m hm c hc
    by_cases hd : p d = true
    · rw [Regex.many_cons_pos hd] at hm
      rcases List.mem_append.mp hm with hm | hm
      · obtain ⟨inner, hinner, rfl⟩ := List.mem_map.mp hm
        rcases List.mem_cons.mp hc with rfl | hc
        · exact hd
        · exact ih inner hinner c hc
      · rw [List.mem_singleton.mp hm] at hc
        cases hc
    · rw [Regex.many_cons_neg hd, List.mem_singleton] at hm
      rw [hm] at hc
      cases hc

/-- Digits, and a sign right after them if there is more. -/
def TimeTail (s : Text) : Prop :=
  ∃ digits offset, s = digits ++ offset ∧ digits ≠ [] ∧ (∀ c ∈ digits, isAsciiDigit c = true) ∧
    (offset = [] ∨ ∃ c rest, offset = c :: rest ∧ isSign c = true)

theorem taken_timeTail : ∀ s, ∀ m ∈ timeTailRe.prefixes false s, TimeTail m.taken := by
  have hplus : ∀ s, ∀ m ∈ (plus asciiDigit).prefixes false s,
      m.taken ≠ [] ∧ ∀ c ∈ m.taken, isAsciiDigit c = true := by
    intro s m hm
    obtain ⟨x, y, htaken, hx, hy⟩ := @taken_seq asciiDigit (many asciiDigit) (Digits 1 1)
      (fun t => ∀ c ∈ t, isAsciiDigit c = true) (fun s m hm => taken_digit hm)
      (taken_many isAsciiDigit) s m hm
    rw [htaken]
    refine ⟨fun hnil => ?_, fun c hc => (List.mem_append.mp hc).elim (hx.digits c) (hy c)⟩
    have hlow := hx.low
    rw [(List.append_eq_nil_iff.mp hnil).1] at hlow
    exact absurd hlow (by simp)
  have hoffset : ∀ s, ∀ m ∈ (opt (.seq (.char isSign) (plus asciiDigit))).prefixes false s,
      m.taken = [] ∨ ∃ c rest, m.taken = c :: rest ∧ isSign c = true := by
    intro s m hm
    rcases List.mem_append.mp hm with hm | hm
    · obtain ⟨first, hfirst, hm⟩ := List.mem_flatMap.mp hm
      obtain ⟨rest, hrest, rfl⟩ := List.mem_map.mp hm
      cases s with
      | nil => cases hfirst
      | cons c s =>
        rw [Regex.prefixes] at hfirst
        split_ifs at hfirst with hc
        · rw [List.mem_singleton.mp hfirst]
          exact .inr ⟨c, rest.taken, rfl, hc⟩
        · cases hfirst
    · rw [List.mem_singleton.mp hm]
      exact .inl rfl
  intro s m hm
  obtain ⟨x, y, htaken, hx, hy⟩ := @taken_seq (plus asciiDigit)
    (opt (.seq (.char isSign) (plus asciiDigit)))
    (fun t => t ≠ [] ∧ ∀ c ∈ t, isAsciiDigit c = true)
    (fun t => t = [] ∨ ∃ c rest, t = c :: rest ∧ isSign c = true) hplus hoffset s m hm
  exact ⟨x, y, htaken, hx.1, hx.2, hy⟩

theorem splitCcmTimeTail_fst {s : Text} (h : TimeTail s) :
    (splitCcmTimeTail s).1 ≠ [] ∧ ∀ c ∈ (splitCcmTimeTail s).1, isAsciiDigit c = true := by
  obtain ⟨digits, offset, rfl, hne, hdigits, hoffset⟩ := h
  have hsign : ∀ c ∈ digits, ¬ (c == '+' || c == '-') = true := by
    intro c hc hsign
    have hdigit := hdigits c hc
    rw [Bool.or_eq_true, beq_iff_eq, beq_iff_eq] at hsign
    rcases hsign with rfl | rfl <;> cases hdigit
  have hfst : (splitCcmTimeTail (digits ++ offset)).1 = digits := by
    rw [splitCcmTimeTail, List.findIdx?_append, List.findIdx?_eq_none_iff.mpr fun c hc => by
      simpa using hsign c hc]
    rcases hoffset with rfl | ⟨c, rest, rfl, hc⟩
    · exact List.append_nil digits
    · rw [List.findIdx?_cons, show (c == '+' || c == '-') = true from hc]
      exact List.take_left' (Nat.zero_add _).symm
  rw [hfst]
  exact ⟨hne, hdigits⟩

theorem parseCaptures_isSome {name : Nat → Option Text}
    (hmessage : ∃ t, name 1 = some t)
    (hclock : ∀ n ∈ [2, 3, 4, 6, 7], ∃ t, name n = some t ∧ Digits 1 2 t)
    (htail : ∃ t, name 5 = some t ∧ TimeTail t) (hyear : ∃ t, name 8 = some t ∧ Digits 4 4 t) :
    ∃ parsed, parseCaptures name = some parsed ∧ name 1 = some parsed.message := by
  obtain ⟨message, hmessage⟩ := hmessage
  have hnumber : ∀ n ∈ [2, 3, 4, 6, 7], ∃ t value, name n = some t ∧ parseU32 t = some value := by
    intro n hn
    obtain ⟨t, ht, hdigits⟩ := hclock n hn
    obtain ⟨value, hvalue⟩ := Option.isSome_iff_exists.mp
      (hdigits.parseU32_isSome (by omega) (by omega))
    exact ⟨t, value, ht, hvalue⟩
  obtain ⟨h, h', hh, hh'⟩ := hnumber 2 (by simp)
  obtain ⟨m, m', hm, hm'⟩ := hnumber 3 (by simp)
  obtain ⟨s, s', hs, hs'⟩ := hnumber 4 (by simp)
  obtain ⟨mon, mon', hmon, hmon'⟩ := hnumber 6 (by simp)
  obtain ⟨day, day', hday, hday'⟩ := hnumber 7 (by simp)
  obtain ⟨tail, htail, hread⟩ := htail
  obtain ⟨ms, hms⟩ := Option.isSome_iff_exists.mp (truncateSubsecondToMillis_isSome
    (splitCcmTimeTail_fst hread).2 (splitCcmTimeTail_fst hread).1)
  obtain ⟨year, hyear, hdigits⟩ := hyear
  obtain ⟨yr, hyr⟩ := Option.isSome_iff_exists.mp (hdigits.parseI32_isSome (by omega) (by omega))
  rw [parseCaptures]
  simp only [hmessage, hh, hm, hs, hh', hm', hs', htail, hms, hmon, hday, hyear, hmon', hday', hyr,
    Option.bind_eq_bind, Option.bind_some]
  exact ⟨_, rfl, rfl⟩

theorem parseCaptures_ccmRe {s : Text} {m : Regex.Match} (hm : m ∈ ccmRe.prefixes false s) :
    ∃ parsed, parseCaptures m.group = some parsed ∧ m.group 1 = some parsed.message := by
  have hattributes : ∀ {n : Nat} {P : Text → Prop}, Captures ccmAttributes n P →
      ∃ t, m.group n = some t ∧ P t := fun h => captures_seq _ (captures_seq _ h) s m hm
  refine parseCaptures_isSome ?_ ?_ ?_ ?_
  · obtain ⟨v, t, rfl, ending, hending, rfl⟩ := Regex.mem_opened.mp hm
    exact ⟨v, Regex.opened_group (by decide) hending⟩
  · have hnumber := taken_between 1 2 (by omega)
    intro n hn
    refine hattributes ?_
    simp only [List.mem_cons, List.not_mem_nil, or_false] at hn
    rcases hn with rfl | rfl | rfl | rfl | rfl
    · iterate 1 refine captures_seq _ ?_
      exact captures_here hnumber (by decide)
    · iterate 3 refine captures_seq _ ?_
      exact captures_here hnumber (by decide)
    · iterate 5 refine captures_seq _ ?_
      exact captures_here hnumber (by decide)
    · iterate 11 refine captures_seq _ ?_
      exact captures_here hnumber (by decide)
    · iterate 13 refine captures_seq _ ?_
      exact captures_here hnumber (by decide)
  · refine hattributes ?_
    iterate 7 refine captures_seq _ ?_
    exact captures_here taken_timeTail (by decide)
  · refine hattributes ?_
    iterate 15 refine captures_seq _ ?_
    exact captures_here (taken_between 4 4 (by omega)) (by decide)

/-! ## Rows of the records -/

/-- The records among rows, as message and line. -/
def ccmShown (entries : List LogEntry) : List (Text × Nat) :=
  (entries.filter fun entry => entry.format == .ccm).map fun entry =>
    (entry.message, entry.lineNumber)

def shownPlaced (p : Regex.Placed) : Text × Nat := ((p.group 1).getD [], p.first)

theorem ccmShown_append (a b : List LogEntry) : ccmShown (a ++ b) = ccmShown a ++ ccmShown b := by
  rw [ccmShown, List.filter_append, List.map_append]
  rfl

def CcmScanBuild.shown (build : CcmScanBuild) : List (Text × Nat) :=
  ccmShown (build.records.map fun record => record.entry)

theorem shown_push (build : CcmScanBuild) (record : CcmLogicalRecord) (id errors : Nat) :
    CcmScanBuild.shown { build with
      records := build.records ++ [record], idCounter := id, errors := errors } =
      build.shown ++ ccmShown [record.entry] := by
  rw [CcmScanBuild.shown, CcmScanBuild.shown, ← ccmShown_append]
  rw [List.map_append]
  rfl

theorem pushPlainPieces_shown (lineStarts : List Nat) (filePath : Text) (offset : Nat)
    (pieces : List Text) (build : CcmScanBuild) (hlimit : build.recordLimit = none) :
    (pushPlainPieces lineStarts filePath offset pieces build).shown = build.shown ∧
      (pushPlainPieces lineStarts filePath offset pieces build).recordLimit = none := by
  induction pieces generalizing offset build with
  | nil => exact ⟨rfl, hlimit⟩
  | cons piece pieces ih =>
    rw [pushPlainPieces]
    dsimp only
    split_ifs with hblank hreached
    · exact ih _ build hlimit
    · rw [CcmScanBuild.recordLimitReached, hlimit] at hreached
      cases hreached
    · have hrest := ih (offset + piece.length)
        { build with
          records   := build.records ++ [{
            entry     := plainEntry build.idCounter (lineNumberForOffset lineStarts offset)
              (trim (piece.rdropWhile fun c => c == '\r' || c == '\n')) filePath
            lineStart := lineNumberForOffset lineStarts offset
            lineEnd   := lineNumberForOffset lineStarts offset }]
          idCounter := build.idCounter + 1
          errors    := build.errors + 1 } hlimit
      rw [shown_push] at hrest
      exact ⟨hrest.1.trans (List.append_nil _), hrest.2⟩

theorem lineStarts_count (content : Text) (start offset : Nat) :
    ((content.zipIdx start).filterMap fun (c, index) =>
      if c = '\n' then some (index + 1) else none).countP (· ≤ offset) =
      (content.take (offset - start)).count '\n' := by
  induction content generalizing start with
  | nil => rw [List.take_nil]; rfl
  | cons c content ih =>
    rw [List.zipIdx_cons, List.filterMap_cons]
    dsimp only
    rcases Nat.lt_or_ge start offset with hlt | hge
    · rw [show offset - start = offset - (start + 1) + 1 by omega, List.take_succ_cons]
      by_cases hc : c = '\n'
      · rw [if_pos hc]
        dsimp only
        rw [List.countP_cons_of_pos (by simpa using hlt), ih, hc, List.count_cons_self]
      · rw [if_neg hc]
        dsimp only
        rw [ih, List.count_cons_of_ne hc]
    · rw [Nat.sub_eq_zero_of_le hge, List.take_zero, List.count_nil]
      have hrest := ih (start + 1)
      rw [Nat.sub_eq_zero_of_le (by omega), List.take_zero, List.count_nil] at hrest
      by_cases hc : c = '\n'
      · rw [if_pos hc]
        dsimp only
        rw [List.countP_cons_of_neg (by simpa using hge), hrest]
      · rw [if_neg hc]
        dsimp only
        rw [hrest]

theorem lineNumberForOffset_eq (front rest : Text) :
    lineNumberForOffset (buildLineStarts (front ++ rest)) front.length = 1 + front.count '\n' := by
  rw [lineNumberForOffset, buildLineStarts, List.countP_cons_of_pos (by simp),
    lineStarts_count (front ++ rest) 0 front.length, Nat.sub_zero, List.take_left, Nat.add_comm]

theorem scanRecords_shown (filePath content : Text) (fuel : Nat) (front : Text)
    (cursor : CcmCursor) (build : CcmScanBuild) (hcontent : content = front ++ cursor.rest)
    (hoffset : cursor.offset = front.length) (hfuel : cursor.rest.length ≤ fuel)
    (hlimit : build.recordLimit = none) :
    let scanned := scanRecords .publicProjection (buildLineStarts content) filePath fuel cursor build
    let placed := ccmRe.place (1 + front.count '\n') cursor.rest
    scanned.1.shown = build.shown ++ placed.map shownPlaced ∧ scanned.1.recordLimit = none ∧
      ∃ after, scanned.2 = some after ∧ after.matchedAny = (cursor.matchedAny || !placed.isEmpty) := by
  induction fuel generalizing front cursor build with
  | zero =>
    have hnil : cursor.rest = [] := List.length_eq_zero_iff.mp (Nat.le_zero.mp hfuel)
    have hplace : ccmRe.place (1 + front.count '\n') cursor.rest = [] := by
      rw [hnil, Regex.place_eq ccmRe_unanchored ccmRe_taking]
      rfl
    dsimp only
    rw [hplace]
    exact ⟨(List.append_nil _).symm, hlimit, cursor, rfl, (Bool.or_false _).symm⟩
  | succ fuel ih =>
    dsimp only
    rw [Regex.place_eq ccmRe_unanchored ccmRe_taking, scanRecords]
    cases hfound : ccmRe.locate cursor.rest with
    | none => exact ⟨(List.append_nil _).symm, hlimit, cursor, rfl, (Bool.or_false _).symm⟩
    | some found =>
      obtain ⟨gap, caps⟩ := found
      have hsplit := Regex.locate_append hfound
      obtain ⟨parsed, hparsed, hmessage⟩ := parseCaptures_ccmRe
        (List.mem_of_head? (Regex.locate_head hfound))
      dsimp only at hsplit hparsed hmessage ⊢
      rw [if_neg (by simp), hparsed]
      obtain ⟨hshown, hunlimited⟩ := pushPlainPieces_shown (buildLineStarts content) filePath
        cursor.offset (splitInclusive gap) build hlimit
      set pushed := pushUnmatchedPlain gap cursor.offset (buildLineStarts content) filePath build
        with hpushed
      have hreached : pushed.recordLimitReached = (false, pushed) := by
        rw [CcmScanBuild.recordLimitReached, hpushed, pushUnmatchedPlain, hunlimited]
        rfl
      dsimp only
      rw [hreached]
      dsimp only
      rw [if_neg Bool.false_ne_true]
      have hline : lineNumberForOffset (buildLineStarts content) (cursor.offset + gap.length) =
          (Regex.Placed.at (1 + front.count '\n') gap caps).first := by
        rw [hcontent, ← hsplit, hoffset, ← List.length_append, List.append_assoc,
          ← List.append_assoc front gap, lineNumberForOffset_eq, List.count_append, ← Nat.add_assoc]
        rfl
      have hrest := ih (front ++ gap ++ caps.taken)
        { offset := cursor.offset + gap.length + caps.taken.length, rest := caps.rest
          matchedAny := true }
        { pushed with
          records   := pushed.records ++ [parsed.intoLogicalRecord pushed.idCounter
            (lineNumberForOffset (buildLineStarts content) (cursor.offset + gap.length))
            (lineNumberForOffset (buildLineStarts content)
              (cursor.offset + gap.length + caps.taken.length - 1)) filePath]
          idCounter := pushed.idCounter + 1 }
        (by rw [hcontent, ← hsplit]; simp only [List.append_assoc])
        (by simp only [List.length_append, hoffset]) (by
          have hlt := Regex.locate_rest_length ccmRe_unanchored ccmRe_taking hfound
          dsimp only at hlt ⊢
          omega) hunlimited
      rw [shown_push, List.count_append, List.count_append] at hrest
      dsimp only at hrest
      refine ⟨?_, hrest.2.1, ?_⟩
      · rw [hrest.1, show pushed.shown = build.shown from hshown, List.append_assoc]
        have hone : ∀ id lineEnd, ccmShown [(parsed.intoLogicalRecord id
            (lineNumberForOffset (buildLineStarts content) (cursor.offset + gap.length)) lineEnd
            filePath).entry] = [shownPlaced (Regex.Placed.at (1 + front.count '\n') gap caps)] := by
          intro id lineEnd
          rw [hline]
          show [(parsed.message, _)] = [((caps.group 1).getD [], _)]
          rw [hmessage]
          rfl
        have hlast : 1 + (front.count '\n' + gap.count '\n' + caps.taken.count '\n') =
            (Regex.Placed.at (1 + front.count '\n') gap caps).last := by
          simp only [Regex.Placed.at, Nat.add_assoc]
        rw [hone, hlast, List.singleton_append, List.map_cons]
      · obtain ⟨after, hafter, hmatched⟩ := hrest.2.2
        exact ⟨after, hafter, by rw [hmatched, Bool.true_or, List.isEmpty_cons, Bool.not_false, Bool.or_true]⟩

theorem terminated_isInfix (s : Text) :
    (∀ piece ∈ (terminated s).1, piece <:+: s) ∧ lastLine s <:+: s := by
  induction hs : s.length using Nat.strong_induction_on generalizing s with
  | _ n ih =>
    by_cases hmem : '\n' ∈ s
    · obtain ⟨line, rest, rfl, hline⟩ := List.eq_append_cons_of_mem hmem
      have hrest := ih rest.length (by rw [← hs, List.length_append, List.length_cons]; omega) rest rfl
      have hin : rest <:+: line ++ '\n' :: rest :=
        ((List.suffix_cons '\n' rest).trans (List.suffix_append line _)).isInfix
      rw [lastLine, terminated_newline hline]
      refine ⟨fun piece hpiece => ?_, hrest.2.trans hin⟩
      rcases List.mem_cons.mp hpiece with rfl | hpiece
      · exact (List.prefix_append _ _).isInfix
      · exact (hrest.1 piece hpiece).trans hin
    · rw [lastLine, terminated_of_not_mem hmem]
      exact ⟨fun piece hpiece => (by cases hpiece), List.infix_rfl⟩

theorem lines_isInfix (s : Text) : ∀ line ∈ lines s, line <:+: s := by
  intro line hline
  rcases List.mem_append.mp hline with hline | hline
  · obtain ⟨piece, hpiece, rfl⟩ := List.mem_map.mp hline
    refine List.IsInfix.trans ?_ ((terminated_isInfix s).1 piece hpiece)
    rw [stripCarriageReturn]
    split_ifs
    · exact (List.dropLast_prefix piece).isInfix
    · exact List.infix_rfl
  · split_ifs at hline
    · cases hline
    · rw [List.mem_singleton.mp hline]
      exact (terminated_isInfix s).2

theorem parseLinesFrom_shown (filePath : Text) (id lineNumber : Nat) (ls : List Text)
    (h : ∀ line ∈ ls, ccmRe.locate line = none) :
    ccmShown (parseLinesFrom filePath id lineNumber ls).1 = [] := by
  induction ls generalizing id lineNumber with
  | nil => rfl
  | cons line ls ih =>
    have hrest := fun id lineNumber => ih id lineNumber fun l hl => h l (List.mem_cons_of_mem _ hl)
    rw [parseLinesFrom]
    split_ifs
    · exact hrest id (lineNumber + 1)
    · have hnone : parseLine line = none := by
        rw [parseLine, Regex.captures, Regex.findFrom_eq ccmRe_unanchored,
          h line (List.mem_cons_self ..)]
        rfl
      rw [hnone]
      exact hrest (id + 1) (lineNumber + 1)

theorem parseContentMultiline_shown (content filePath : Text) :
    ccmShown (parseContentMultiline content filePath).1 =
      (ccmRe.place 1 content).map shownPlaced := by
  have hscan := scanRecords_shown filePath content content.length [] { offset := 0, rest := content }
    { recordLimit := none } rfl rfl (Nat.le_refl _) rfl
  dsimp only at hscan
  rw [List.count_nil] at hscan
  obtain ⟨hshown, hlimit, after, hafter, hmatched⟩ := hscan
  rw [parseContentMultiline, scanCcmContent]
  dsimp only
  set scanned := scanRecords .publicProjection (buildLineStarts content) filePath content.length
    { offset := 0, rest := content } { recordLimit := none } with hscanned
  obtain ⟨build, rest⟩ := scanned
  dsimp only at hshown hlimit hafter
  subst hafter
  dsimp only
  obtain ⟨hpushed, -⟩ := pushPlainPieces_shown (buildLineStarts content) filePath after.offset
    (splitInclusive after.rest) build hlimit
  by_cases hplace : ccmRe.place 1 content = []
  · have hnone : ccmRe.locate content = none := by
      rw [Regex.place_eq ccmRe_unanchored ccmRe_taking] at hplace
      cases hfound : ccmRe.locate content with
      | none => rfl
      | some found => rw [hfound] at hplace; cases hplace
    rw [hmatched, hplace]
    refine Eq.trans ?_ (parseLinesFrom_shown filePath 0 1 (lines content) fun line hline => ?_)
    · refine congrArg ccmShown ?_
      show List.map _ (List.map _ _) = _
      rw [List.map_map]
      exact List.map_id _
    · obtain ⟨a, b, hab⟩ := lines_isInfix content line hline
      rw [← hab] at hnone
      exact Regex.locate_infix_none ccmRe_unanchored hnone
  · have htrue : after.matchedAny = true := by
      rw [hmatched]
      cases hp : ccmRe.place (1 + 0) content with
      | nil => exact absurd hp hplace
      | cons _ _ => rfl
    rw [htrue, Bool.true_or, if_pos rfl]
    exact hpushed.trans hshown

end Ccm
end Parser
end CmTrace
