import CmTrace.Js.Text

/-!
# Records as JSON

The text of a flat record.  A quoted text is read back up to its quote and every
other value up to the character after it, so that a text is of one record only.
-/

namespace CmTrace
namespace Js

/-! ## Quoted texts -/

def hexUnit (n : Nat) : UInt16 := if n < 10 then .ofNat (48 + n) else .ofNat (87 + n)

def hexValue (u : UInt16) : Nat := if u.toNat < 58 then u.toNat - 48 else u.toNat - 87

theorem hexValue_hexUnit {n : Nat} (h : n < 16) : hexValue (hexUnit n) = n := by
  interval_cases n <;> rfl

def hexUnits (u : UInt16) : JsString :=
  [hexUnit (u.toNat / 4096 % 16), hexUnit (u.toNat / 256 % 16), hexUnit (u.toNat / 16 % 16),
    hexUnit (u.toNat % 16)]

/-- The letters that stand for units after a backslash. -/
def escapes : List (UInt16 × UInt16) :=
  [(unit '"', unit '"'), (unit '\\', unit '\\'), (8, unit 'b'), (9, unit 't'), (10, unit 'n'),
    (12, unit 'f'), (13, unit 'r')]

def escapeUnit (u : UInt16) : JsString :=
  match escapes.lookup u with
  | some letter => [unit '\\', letter]
  | none => if u.toNat < 0x20 then unit '\\' :: unit 'u' :: hexUnits u else [u]

/-- The unit has no other half before or after it. -/
def isLone (before : Option UInt16) (u : UInt16) (after : JsString) : Bool :=
  (isHigh u && !after.head?.any isLow) || (isLow u && !before.any isHigh)

def escapeAfter : Option UInt16 → JsString → JsString
  | _, [] => []
  | before, u :: rest =>
    (if isLone before u rest then unit '\\' :: unit 'u' :: hexUnits u else escapeUnit u) ++
      escapeAfter (some u) rest

def quote (s : JsString) : JsString := unit '"' :: (escapeAfter none s ++ [unit '"'])

/-- The unit a letter after a backslash stands for. -/
def unescapeLetter (letter : UInt16) : UInt16 :=
  ((escapes.find? fun e => e.2 == letter).map Prod.fst).getD letter

def unescape : JsString → Option (JsString × JsString)
  | [] => none
  | u :: rest =>
    if u = unit '"' then some ([], rest)
    else if u = unit '\\' then
      match rest with
      | letter :: rest =>
        if letter = unit 'u' then
          match rest with
          | a :: b :: c :: d :: rest => (unescape rest).map fun r =>
            (.ofNat (((hexValue a * 16 + hexValue b) * 16 + hexValue c) * 16 + hexValue d) :: r.1, r.2)
          | _ => none
        else (unescape rest).map fun r => (unescapeLetter letter :: r.1, r.2)
      | [] => none
    else (unescape rest).map fun r => (u :: r.1, r.2)

theorem unescape_quote (x : JsString) : unescape (unit '"' :: x) = some ([], x) := by
  rw [unescape.eq_def]
  exact if_pos rfl

theorem unescape_plain {u : UInt16} (hquote : u ≠ unit '"') (hslash : u ≠ unit '\\') (x : JsString) :
    unescape (u :: x) = (unescape x).map fun r => (u :: r.1, r.2) := by
  rw [unescape.eq_def]
  dsimp only
  rw [if_neg hquote, if_neg hslash]

theorem unescape_letter {letter : UInt16} (h : letter ≠ unit 'u') (x : JsString) :
    unescape (unit '\\' :: letter :: x) =
      (unescape x).map fun r => (unescapeLetter letter :: r.1, r.2) := by
  rw [unescape.eq_def]
  dsimp only
  rw [if_neg (by decide), if_pos rfl, if_neg h]

theorem unescape_unicode (a b c d : UInt16) (x : JsString) :
    unescape (unit '\\' :: unit 'u' :: a :: b :: c :: d :: x) = (unescape x).map fun r =>
      (.ofNat (((hexValue a * 16 + hexValue b) * 16 + hexValue c) * 16 + hexValue d) :: r.1, r.2) := by
  rw [unescape.eq_def]
  dsimp only
  rw [if_neg (by decide), if_pos rfl, if_pos rfl]

theorem unescape_hexUnits (u : UInt16) (t : JsString) :
    unescape (unit '\\' :: unit 'u' :: (hexUnits u ++ t)) =
      (unescape t).map fun r => (u :: r.1, r.2) := by
  have hlt : u.toNat < 65536 := UInt16.toNat_lt u
  have hvalue : UInt16.ofNat (((hexValue (hexUnit (u.toNat / 4096 % 16)) * 16 +
      hexValue (hexUnit (u.toNat / 256 % 16))) * 16 + hexValue (hexUnit (u.toNat / 16 % 16))) * 16 +
      hexValue (hexUnit (u.toNat % 16))) = u := by
    have hdigit : ∀ n, hexValue (hexUnit (n % 16)) = n % 16 := fun n =>
      hexValue_hexUnit (Nat.mod_lt _ (by decide))
    rw [hdigit, hdigit, hdigit, hdigit]
    refine UInt16.toNat_inj.mp ?_
    rw [UInt16.toNat_ofNat']
    omega
  rw [hexUnits, List.cons_append, List.cons_append, List.cons_append, List.cons_append,
    List.nil_append, unescape_unicode, hvalue]

theorem unescape_escapeUnit (u : UInt16) (t : JsString) :
    unescape (escapeUnit u ++ t) = (unescape t).map fun r => (u :: r.1, r.2) := by
  have hletters : ∀ e ∈ escapes, e.2 ≠ unit 'u' ∧ unescapeLetter e.2 = e.1 := by
    intro e he
    simp only [escapes, List.mem_cons, List.not_mem_nil, or_false] at he
    rcases he with rfl | rfl | rfl | rfl | rfl | rfl | rfl <;> exact ⟨by decide, rfl⟩
  rw [escapeUnit]
  cases hfound : escapes.lookup u with
  | some letter =>
    obtain ⟨before, after, hescapes, -⟩ := List.lookup_eq_some_iff.mp hfound
    obtain ⟨hne, hletter⟩ := hletters (u, letter) (by rw [hescapes]; simp)
    dsimp only
    rw [List.cons_append, List.singleton_append, unescape_letter hne, hletter]
  | none =>
    dsimp only
    split
    · rw [List.cons_append, List.cons_append, unescape_hexUnits]
    · have hquote : u ≠ unit '"' := by
        rintro rfl
        exact absurd hfound (by decide)
      have hslash : u ≠ unit '\\' := by
        rintro rfl
        exact absurd hfound (by decide)
      rw [List.singleton_append, unescape_plain hquote hslash]

theorem unescape_escapeAfter (s : JsString) (before : Option UInt16) (x : JsString) :
    unescape (escapeAfter before s ++ unit '"' :: x) = some (s, x) := by
  induction s generalizing before with
  | nil =>
    rw [escapeAfter, List.nil_append, unescape_quote]
  | cons u s ih =>
    rw [escapeAfter, List.append_assoc]
    split
    · rw [List.cons_append, List.cons_append, unescape_hexUnits, ih]
      rfl
    · rw [unescape_escapeUnit, ih]
      rfl

theorem quote_append_inj {a b x y : JsString} (h : quote a ++ x = quote b ++ y) :
    a = b ∧ x = y := by
  rw [quote, quote, List.cons_append, List.cons_append, List.append_assoc, List.append_assoc,
    List.singleton_append, List.singleton_append] at h
  have hread := congrArg unescape (List.cons.inj h).2
  rw [unescape_escapeAfter, unescape_escapeAfter, Option.some_inj, Prod.mk.injEq] at hread
  exact hread

/-! ## Values and records -/

/-- The value of a field. -/
inductive JsonValue where
  | null
  | number (n : Int)
  | text (s : JsString)
  | texts (ss : List JsString)
  deriving DecidableEq

def intDigits (n : Int) : JsString :=
  if n < 0 then unit '-' :: digits n.natAbs else digits n.natAbs

def JsonValue.stringify : JsonValue → JsString
  | null => js "null"
  | number n => intDigits n
  | text s => quote s
  | texts ss => unit '[' :: (joinWith (unit ',') (ss.map quote) ++ [unit ']'])

def stringify (fields : List (JsString × JsonValue)) : JsString :=
  unit '{' :: (joinWith (unit ',') (fields.map fun f => quote f.1 ++ unit ':' :: f.2.stringify) ++
    [unit '}'])

def isNumberUnit (u : UInt16) : Bool := u == unit '-' || decide (48 ≤ u.toNat ∧ u.toNat ≤ 57)

/-- What comes after a value begins with no unit of a number. -/
def AfterValue (x : JsString) : Prop := ∀ u ∈ x.head?, isNumberUnit u = false

theorem append_inj_of_span {p : UInt16 → Bool} {a b x y : JsString} (ha : ∀ u ∈ a, p u = true)
    (hb : ∀ u ∈ b, p u = true) (hx : ∀ u ∈ x.head?, p u = false) (hy : ∀ u ∈ y.head?, p u = false)
    (h : a ++ x = b ++ y) : a = b ∧ x = y := by
  have htake : ∀ {a x : JsString}, (∀ u ∈ a, p u = true) → (∀ u ∈ x.head?, p u = false) →
      (a ++ x).takeWhile p = a := by
    intro a x ha hx
    rw [List.takeWhile_append_of_pos ha]
    cases x with
    | nil => rw [List.takeWhile_nil, List.append_nil]
    | cons u x =>
      rw [List.takeWhile_cons_of_neg (by rw [hx u rfl]; decide), List.append_nil]
  have hab := congrArg (List.takeWhile p) h
  rw [htake ha hx, htake hb hy] at hab
  subst hab
  exact ⟨rfl, List.append_cancel_left h⟩

theorem isNumberUnit_digits {n : Nat} {u : UInt16} (h : u ∈ digits n) :
    48 ≤ u.toNat ∧ u.toNat ≤ 57 := by
  obtain ⟨c, hc, rfl⟩ := List.mem_map.mp h
  have hdigit := isDigit_of_mem_decimal hc
  have hlt := toNat_lt_of_isDigit hdigit
  rw [Char.isDigit, Bool.and_eq_true, decide_eq_true_eq, decide_eq_true_eq] at hdigit
  have hge : 48 ≤ c.toNat := UInt32.le_iff_toNat_le.mp hdigit.1
  have hle : c.toNat ≤ 57 := UInt32.le_iff_toNat_le.mp hdigit.2
  rw [unit, UInt16.toNat_ofNat', Nat.mod_eq_of_lt hlt]
  exact ⟨hge, hle⟩

theorem isNumberUnit_intDigits (n : Int) : ∀ u ∈ intDigits n, isNumberUnit u = true := by
  intro u hu
  rw [isNumberUnit, Bool.or_eq_true, beq_iff_eq, decide_eq_true_eq]
  rw [intDigits] at hu
  split at hu
  · exact (List.mem_cons.mp hu).imp_right isNumberUnit_digits
  · exact .inr (isNumberUnit_digits hu)

theorem intDigits_ne_nil (n : Int) : intDigits n ≠ [] := by
  rw [intDigits]
  split
  · exact List.cons_ne_nil _ _
  · exact fun h => Nat.toDigits_ne_nil (List.map_eq_nil_iff.mp h)

theorem intDigits_injective : Function.Injective intDigits := by
  have hminus : ∀ n, unit '-' ∉ digits n := fun n h => by
    have := (isNumberUnit_digits h).1
    exact absurd this (by decide)
  intro m n h
  rw [intDigits, intDigits] at h
  split at h <;> split at h
  · have := digits_injective (List.cons.inj h).2
    omega
  · exact absurd (h ▸ List.mem_cons_self ..) (hminus _)
  · exact absurd (h ▸ List.mem_cons_self ..) (hminus _)
  · have := digits_injective h
    omega

section Join

variable {A : Type} {piece : A → JsString} {separator last : UInt16}

theorem joinWith_cons (s : A) (ss : List A) (z : JsString) :
    joinWith separator ((s :: ss).map piece) ++ z =
      piece s ++ ((if ss = [] then [] else separator :: joinWith separator (ss.map piece)) ++ z) := by
  cases ss with
  | nil => rfl
  | cons t ss =>
    rw [if_neg (List.cons_ne_nil t ss), ← List.append_assoc]
    rfl

theorem joinWith_append_inj (After : JsString → Prop) (hlast : separator ≠ last)
    (hafter : ∀ z, After (separator :: z) ∧ After (last :: z))
    (hpiece : ∀ {a b x y}, After x → After y → piece a ++ x = piece b ++ y → a = b ∧ x = y)
    (hne : ∀ s z, (piece s ++ z).head? ≠ some last) {ss ts : List A} {x y : JsString}
    (h : joinWith separator (ss.map piece) ++ last :: x =
      joinWith separator (ts.map piece) ++ last :: y) : ss = ts ∧ x = y := by
  have hrest : ∀ (ss : List A) z,
      After ((if ss = [] then [] else separator :: joinWith separator (ss.map piece)) ++ last :: z) := by
    intro ss z
    split
    · exact (hafter z).2
    · exact (hafter _).1
  induction ss generalizing ts with
  | nil => cases ts with
    | nil => exact ⟨rfl, (List.cons.inj h).2⟩
    | cons t ts =>
      rw [joinWith_cons] at h
      exact absurd (congrArg List.head? h).symm (hne _ _)
  | cons s ss ih => cases ts with
    | nil =>
      rw [joinWith_cons] at h
      exact absurd (congrArg List.head? h) (hne _ _)
    | cons t ts =>
      rw [joinWith_cons, joinWith_cons] at h
      obtain ⟨rfl, hmore⟩ := hpiece (hrest ss x) (hrest ts y) h
      by_cases hnil : ss = []
      · by_cases hnil' : ts = []
        · subst hnil hnil'
          exact ⟨rfl, (List.cons.inj hmore).2⟩
        · rw [if_pos hnil, if_neg hnil'] at hmore
          exact absurd (List.cons.inj hmore).1.symm hlast
      · by_cases hnil' : ts = []
        · rw [if_neg hnil, if_pos hnil'] at hmore
          exact absurd (List.cons.inj hmore).1 hlast
        · rw [if_neg hnil, if_neg hnil'] at hmore
          obtain ⟨rfl, hxy⟩ := ih (List.cons.inj hmore).2
          exact ⟨rfl, hxy⟩

end Join

theorem JsonValue.head_stringify (v : JsonValue) (x : JsString) :
    ∃ u, (v.stringify ++ x).head? = some u ∧ (match v with
      | null => u = unit 'n'
      | number _ => isNumberUnit u = true
      | text _ => u = unit '"'
      | texts _ => u = unit '[') := by
  cases v with
  | null => exact ⟨_, rfl, rfl⟩
  | text s => exact ⟨_, rfl, rfl⟩
  | texts ss => exact ⟨_, rfl, rfl⟩
  | number n =>
    obtain ⟨u, rest, hn⟩ := List.exists_cons_of_ne_nil (intDigits_ne_nil n)
    refine ⟨u, ?_, isNumberUnit_intDigits n u (hn ▸ List.mem_cons_self ..)⟩
    rw [stringify, hn]
    rfl

theorem quote_head (s z : JsString) : (quote s ++ z).head? = some (unit '"') := rfl

theorem JsonValue.stringify_append_inj {v w : JsonValue} {x y : JsString} (hx : AfterValue x)
    (hy : AfterValue y) (h : v.stringify ++ x = w.stringify ++ y) : v = w ∧ x = y := by
  obtain ⟨u, hu, hv⟩ := v.head_stringify x
  obtain ⟨u', hu', hw⟩ := w.head_stringify y
  rw [h, hu', Option.some_inj] at hu
  subst hu
  cases v with
  | null => cases w with
    | null => exact ⟨rfl, List.append_cancel_left h⟩
    | number n => subst hv; cases hw
    | text s => subst hv; cases hw
    | texts ss => subst hv; cases hw
  | number m => cases w with
    | null => subst hw; cases hv
    | number n =>
      obtain ⟨hdigits, hxy⟩ := append_inj_of_span (isNumberUnit_intDigits m)
        (isNumberUnit_intDigits n) hx hy h
      exact ⟨congrArg number (intDigits_injective hdigits), hxy⟩
    | text s => subst hw; cases hv
    | texts ss => subst hw; cases hv
  | text s => cases w with
    | null => subst hw; cases hv
    | number n => subst hv; cases hw
    | text t =>
      obtain ⟨rfl, hxy⟩ := quote_append_inj h
      exact ⟨rfl, hxy⟩
    | texts ts => subst hw; cases hv
  | texts ss => cases w with
    | null => subst hw; cases hv
    | number n => subst hv; cases hw
    | text t => subst hw; cases hv
    | texts ts =>
      rw [stringify, stringify, List.cons_append, List.cons_append, List.append_assoc,
        List.append_assoc] at h
      obtain ⟨rfl, hxy⟩ := joinWith_append_inj (fun _ => True) (by decide)
        (fun _ => ⟨trivial, trivial⟩) (fun _ _ h => quote_append_inj h)
        (fun s z hs => by
          rw [quote_head, Option.some_inj] at hs
          exact absurd hs (by decide)) (List.cons.inj h).2
      exact ⟨rfl, hxy⟩

theorem stringify_injective : Function.Injective stringify := by
  intro fs gs h
  rw [stringify, stringify] at h
  have hafter : ∀ z, AfterValue (unit ',' :: z) ∧ AfterValue (unit '}' :: z) := by
    refine fun z => ⟨fun u hu => ?_, fun u hu => ?_⟩ <;>
    · obtain rfl := Option.some_inj.mp hu
      decide
  refine (joinWith_append_inj AfterValue (by decide) hafter ?_ (fun f z hf => ?_)
    (List.cons.inj h).2).1
  · intro f g x y hx hy hfg
    rw [List.append_assoc, List.append_assoc, List.cons_append, List.cons_append] at hfg
    obtain ⟨hname, hrest⟩ := quote_append_inj hfg
    obtain ⟨hvalue, hxy⟩ := JsonValue.stringify_append_inj hx hy (List.cons.inj hrest).2
    exact ⟨Prod.ext hname hvalue, hxy⟩
  · rw [List.append_assoc, quote_head, Option.some_inj] at hf
    exact absurd hf (by decide)

end Js
end CmTrace
