import CmTrace.Js.Text

/-!
# Texts in addresses

The escaping of a text for an address: letters, digits and a few marks stand for
themselves, every other character is written byte by byte.  A text with half a
pair of surrogates has no escaped form.
-/

namespace CmTrace
namespace Js

def codePoints : JsString → Option (List Nat)
  | [] => some []
  | [u] => if isHigh u || isLow u then none else some [u.toNat]
  | u :: v :: rest =>
    if isHigh u then
      if isLow v then
        (codePoints rest).map fun points =>
          (0x10000 + (u.toNat - 0xD800) * 0x400 + (v.toNat - 0xDC00)) :: points
      else none
    else if isLow u then none
    else (codePoints (v :: rest)).map fun points => u.toNat :: points

def isUnescaped (p : Nat) : Bool :=
  decide (48 ≤ p ∧ p ≤ 57 ∨ 65 ≤ p ∧ p ≤ 90 ∨ 97 ≤ p ∧ p ≤ 122) ||
    p ∈ "-_.!~*'()".toList.map Char.toNat

def utf8Bytes (p : Nat) : List Nat :=
  if p < 0x80 then [p]
  else if p < 0x800 then [0xC0 + p / 64, 0x80 + p % 64]
  else if p < 0x10000 then [0xE0 + p / 4096, 0x80 + p / 64 % 64, 0x80 + p % 64]
  else [0xF0 + p / 262144, 0x80 + p / 4096 % 64, 0x80 + p / 64 % 64, 0x80 + p % 64]

def upperHex (n : Nat) : UInt16 := if n < 10 then .ofNat (48 + n) else .ofNat (55 + n)

def percent (b : Nat) : JsString := [unit '%', upperHex (b / 16), upperHex (b % 16)]

def encodePoint (p : Nat) : JsString :=
  if isUnescaped p then [.ofNat p] else (utf8Bytes p).flatMap percent

def encodeURIComponent (s : JsString) : Option JsString :=
  (codePoints s).map fun points => points.flatMap encodePoint

/-! ## No two texts have one escaped form -/

theorem lt_of_mem_codePoints {s : JsString} {points : List Nat} (h : codePoints s = some points) :
    ∀ p ∈ points, p < 0x110000 := by
  fun_induction codePoints s generalizing points with
  | case1 =>
    obtain rfl := Option.some.inj h
    exact fun p hp => absurd hp List.not_mem_nil
  | case2 u hu => cases h
  | case3 u hu =>
    obtain rfl := Option.some.inj h
    intro p hp
    rw [List.mem_singleton.mp hp]
    have := u.toNat_lt
    omega
  | case4 u v rest hu hv ih =>
    obtain ⟨points, hpoints, rfl⟩ := Option.map_eq_some_iff.mp h
    intro p hp
    rcases List.mem_cons.mp hp with heq | hp
    · have hhigh := of_decide_eq_true hu
      have hlow := of_decide_eq_true hv
      omega
    · exact ih hpoints p hp
  | case5 u v rest hu hv => cases h
  | case6 u v rest hu hv => cases h
  | case7 u v rest hu hv ih =>
    obtain ⟨points, hpoints, rfl⟩ := Option.map_eq_some_iff.mp h
    intro p hp
    rcases List.mem_cons.mp hp with rfl | hp
    · have := u.toNat_lt
      omega
    · exact ih hpoints p hp

theorem codePoints_cons {s : JsString} {p : Nat} {points : List Nat}
    (h : codePoints s = some (p :: points)) :
    (∃ u rest, s = u :: rest ∧ p = u.toNat ∧ p < 0x10000 ∧ codePoints rest = some points) ∨
      ∃ u v rest, s = u :: v :: rest ∧ isHigh u ∧ isLow v ∧ codePoints rest = some points ∧
        p = 0x10000 + (u.toNat - 0xD800) * 0x400 + (v.toNat - 0xDC00) := by
  fun_cases codePoints s with
  | case1 =>
    rw [codePoints] at h
    cases h
  | case2 u hu =>
    rw [codePoints, if_pos hu] at h
    cases h
  | case3 u hu =>
    rw [codePoints, if_neg hu] at h
    obtain ⟨rfl, rfl⟩ := List.cons.inj (Option.some.inj h)
    exact .inl ⟨u, [], rfl, rfl, u.toNat_lt, rfl⟩
  | case4 u v rest hu hv =>
    rw [codePoints, if_pos hu, if_pos hv] at h
    obtain ⟨points', hpoints, heq⟩ := Option.map_eq_some_iff.mp h
    obtain ⟨rfl, rfl⟩ := List.cons.inj heq
    exact .inr ⟨u, v, rest, rfl, hu, hv, hpoints, rfl⟩
  | case5 u v rest hu hv =>
    rw [codePoints, if_pos hu, if_neg hv] at h
    cases h
  | case6 u v rest hu hv =>
    rw [codePoints, if_neg hu, if_pos hv] at h
    cases h
  | case7 u v rest hu hv =>
    rw [codePoints, if_neg hu, if_neg hv] at h
    obtain ⟨points', hpoints, heq⟩ := Option.map_eq_some_iff.mp h
    obtain ⟨rfl, rfl⟩ := List.cons.inj heq
    exact .inl ⟨u, v :: rest, rfl, rfl, u.toNat_lt, hpoints⟩

theorem codePoints_eq_nil {s : JsString} (h : codePoints s = some []) : s = [] := by
  cases s with
  | nil => rfl
  | cons u rest =>
    cases rest with
    | nil =>
      rw [codePoints] at h
      split_ifs at h
      cases h
    | cons v rest =>
      rw [codePoints] at h
      split_ifs at h <;> obtain ⟨points, -, heq⟩ := Option.map_eq_some_iff.mp h <;> cases heq

theorem codePoints_inj {s t : JsString} {points : List Nat} (hs : codePoints s = some points)
    (ht : codePoints t = some points) : s = t := by
  induction points generalizing s t with
  | nil => rw [codePoints_eq_nil hs, codePoints_eq_nil ht]
  | cons p points ih =>
    rcases codePoints_cons hs with ⟨u, rest, rfl, hu, hp, hrest⟩ |
      ⟨u, v, rest, rfl, hhigh, hlow, hrest, hu⟩
    · rcases codePoints_cons ht with ⟨u', rest', rfl, hu', -, hrest'⟩ |
        ⟨u', v', rest', rfl, hhigh', hlow', hrest', hu'⟩
      · rw [UInt16.toNat_inj.mp (hu.symm.trans hu'), ih hrest hrest']
      · omega
    · have hhigh := of_decide_eq_true hhigh
      have hlow := of_decide_eq_true hlow
      rcases codePoints_cons ht with ⟨u', rest', rfl, hu', hp', hrest'⟩ |
        ⟨u', v', rest', rfl, hhigh', hlow', hrest', hu'⟩
      · omega
      · have hhigh' := of_decide_eq_true hhigh'
        have hlow' := of_decide_eq_true hlow'
        rw [UInt16.toNat_inj.mp (show u.toNat = u'.toNat by omega),
          UInt16.toNat_inj.mp (show v.toNat = v'.toNat by omega), ih hrest hrest']

theorem upperHex_inj {m n : Nat} (hm : m < 16) (hn : n < 16) (h : upperHex m = upperHex n) :
    m = n := by
  interval_cases m <;> (interval_cases n <;> first | rfl | exact absurd h (by decide))

theorem percent_append_inj {b c : Nat} (hb : b < 256) (hc : c < 256) {x y : JsString}
    (h : percent b ++ x = percent c ++ y) : b = c ∧ x = y := by
  obtain ⟨-, h⟩ := List.cons.inj h
  obtain ⟨hhigh, h⟩ := List.cons.inj h
  obtain ⟨hlow, rfl⟩ := List.cons.inj h
  have hdiv := upperHex_inj (by omega) (by omega) hhigh
  have hmod := upperHex_inj (by omega) (by omega) hlow
  exact ⟨by omega, rfl⟩

theorem flatMap_percent_inj {bs cs : List Nat} (hb : ∀ b ∈ bs, b < 256) (hc : ∀ c ∈ cs, c < 256)
    (hlen : bs.length = cs.length) {x y : JsString}
    (h : bs.flatMap percent ++ x = cs.flatMap percent ++ y) : bs = cs ∧ x = y := by
  induction bs generalizing cs with
  | nil =>
    obtain rfl := List.length_eq_zero_iff.mp hlen.symm
    exact ⟨rfl, h⟩
  | cons b bs ih =>
    cases cs with
    | nil => cases hlen
    | cons c cs =>
      rw [List.flatMap_cons, List.flatMap_cons, List.append_assoc, List.append_assoc] at h
      obtain ⟨rfl, hrest⟩ := percent_append_inj (hb b List.mem_cons_self)
        (hc c List.mem_cons_self) h
      obtain ⟨rfl, rfl⟩ := ih (fun b' hb' => hb b' (List.mem_cons_of_mem _ hb'))
        (fun c' hc' => hc c' (List.mem_cons_of_mem _ hc')) (Nat.succ.inj hlen) hrest
      exact ⟨rfl, rfl⟩

def announced (b : Nat) : Nat :=
  if b < 0x80 then 1 else if b < 0xE0 then 2 else if b < 0xF0 then 3 else 4

theorem utf8Bytes_lead {p : Nat} (hp : p < 0x110000) :
    ∃ lead rest, utf8Bytes p = lead :: rest ∧ (utf8Bytes p).length = announced lead ∧
      ∀ b ∈ utf8Bytes p, b < 256 := by
  rw [utf8Bytes]
  split_ifs
  · refine ⟨_, _, rfl, ?_, ?_⟩
    · simp only [announced, List.length_singleton]
      split_ifs
      rfl
    · simp only [List.mem_cons, List.not_mem_nil, or_false, forall_eq]
      omega
  · refine ⟨_, _, rfl, ?_, ?_⟩
    · simp only [announced, List.length_cons, List.length_nil]
      split_ifs <;> omega
    · simp only [List.mem_cons, List.not_mem_nil, or_false, forall_eq_or_imp, forall_eq]
      omega
  · refine ⟨_, _, rfl, ?_, ?_⟩
    · simp only [announced, List.length_cons, List.length_nil]
      split_ifs <;> omega
    · simp only [List.mem_cons, List.not_mem_nil, or_false, forall_eq_or_imp, forall_eq]
      omega
  · refine ⟨_, _, rfl, ?_, ?_⟩
    · simp only [announced, List.length_cons, List.length_nil]
      split_ifs <;> omega
    · simp only [List.mem_cons, List.not_mem_nil, or_false, forall_eq_or_imp, forall_eq]
      omega

theorem utf8Bytes_inj {p q : Nat} (h : utf8Bytes p = utf8Bytes q) : p = q := by
  rw [utf8Bytes, utf8Bytes] at h
  split_ifs at h <;> simp only [List.cons.injEq, and_true, reduceCtorEq, and_false] at h <;> omega

theorem lt_of_isUnescaped {p : Nat} (h : isUnescaped p = true) : p < 128 ∧ p ≠ 37 ∧ p ≠ 47 := by
  rw [isUnescaped, Bool.or_eq_true, decide_eq_true_iff, decide_eq_true_iff] at h
  rcases h with h | h
  · omega
  · simp at h
    omega

theorem encodePoint_append_inj {p q : Nat} (hp : p < 0x110000) (hq : q < 0x110000) {x y : JsString}
    (h : encodePoint p ++ x = encodePoint q ++ y) : p = q ∧ x = y := by
  obtain ⟨b, bs, hbs, hblen, hb⟩ := utf8Bytes_lead hp
  obtain ⟨c, cs, hcs, hclen, hc⟩ := utf8Bytes_lead hq
  rw [encodePoint, encodePoint] at h
  split_ifs at h with hpu hqu hqu
  · obtain ⟨hhead, rfl⟩ := List.cons.inj h
    have hp' := lt_of_isUnescaped hpu
    have hq' := lt_of_isUnescaped hqu
    have hnat := congrArg UInt16.toNat hhead
    rw [UInt16.toNat_ofNat', UInt16.toNat_ofNat'] at hnat
    exact ⟨by omega, rfl⟩
  · rw [hcs] at h
    have hhead := congrArg UInt16.toNat (List.cons.inj h).1
    have hp' := lt_of_isUnescaped hpu
    rw [UInt16.toNat_ofNat', show (unit '%').toNat = 37 from rfl] at hhead
    omega
  · rw [hbs] at h
    have hhead := congrArg UInt16.toNat (List.cons.inj h).1
    have hq' := lt_of_isUnescaped hqu
    rw [UInt16.toNat_ofNat', show (unit '%').toNat = 37 from rfl] at hhead
    omega
  · have hlead : b = c := by
      rw [hbs, hcs, List.flatMap_cons, List.flatMap_cons, List.append_assoc, List.append_assoc] at h
      exact (percent_append_inj (hb b (hbs ▸ List.mem_cons_self)) (hc c (hcs ▸ List.mem_cons_self))
        h).1
    obtain ⟨hbytes, rfl⟩ := flatMap_percent_inj hb hc (by rw [hblen, hclen, hlead]) h
    exact ⟨utf8Bytes_inj hbytes, rfl⟩

theorem encodePoint_ne_nil {p : Nat} (hp : p < 0x110000) : encodePoint p ≠ [] := by
  obtain ⟨b, bs, hbs, -, -⟩ := utf8Bytes_lead hp
  rw [encodePoint]
  split_ifs
  · exact List.cons_ne_nil _ _
  · rw [hbs]
    exact List.cons_ne_nil _ _

theorem flatMap_encodePoint_inj {ps qs : List Nat} (hps : ∀ p ∈ ps, p < 0x110000)
    (hqs : ∀ q ∈ qs, q < 0x110000) (h : ps.flatMap encodePoint = qs.flatMap encodePoint) :
    ps = qs := by
  induction ps generalizing qs with
  | nil =>
    cases qs with
    | nil => rfl
    | cons q qs =>
      have hnil := (List.append_eq_nil_iff.mp (List.flatMap_cons.symm.trans h.symm)).1
      exact absurd hnil (encodePoint_ne_nil (hqs q List.mem_cons_self))
  | cons p ps ih =>
    cases qs with
    | nil =>
      have hnil := (List.append_eq_nil_iff.mp (List.flatMap_cons.symm.trans h)).1
      exact absurd hnil (encodePoint_ne_nil (hps p List.mem_cons_self))
    | cons q qs =>
      rw [List.flatMap_cons, List.flatMap_cons] at h
      obtain ⟨rfl, hrest⟩ := encodePoint_append_inj (hps p List.mem_cons_self)
        (hqs q List.mem_cons_self) h
      rw [ih (fun p' hp' => hps p' (List.mem_cons_of_mem _ hp'))
        (fun q' hq' => hqs q' (List.mem_cons_of_mem _ hq')) hrest]

theorem encodeURIComponent_inj {s t e : JsString} (hs : encodeURIComponent s = some e)
    (ht : encodeURIComponent t = some e) : s = t := by
  obtain ⟨ps, hps, rfl⟩ := Option.map_eq_some_iff.mp hs
  obtain ⟨qs, hqs, heq⟩ := Option.map_eq_some_iff.mp ht
  obtain rfl := flatMap_encodePoint_inj (lt_of_mem_codePoints hqs) (lt_of_mem_codePoints hps) heq
  exact codePoints_inj hps hqs

/-! ## No slash in an escaped form -/

theorem upperHex_ne_slash (n : Nat) (hn : n < 16) : unit '/' ≠ upperHex n := by
  interval_cases n <;> decide

theorem slash_not_mem_encodePoint {p : Nat} (hp : p < 0x110000) : unit '/' ∉ encodePoint p := by
  obtain ⟨-, -, -, -, hb⟩ := utf8Bytes_lead hp
  rw [encodePoint]
  split_ifs with hu
  · intro hmem
    have hslash := congrArg UInt16.toNat (List.mem_singleton.mp hmem)
    have hp' := lt_of_isUnescaped hu
    rw [UInt16.toNat_ofNat', show (unit '/').toNat = 47 from rfl] at hslash
    omega
  · intro hmem
    obtain ⟨b, hmemb, hmem⟩ := List.mem_flatMap.mp hmem
    have hlt := hb b hmemb
    rw [percent, List.mem_cons, List.mem_cons, List.mem_singleton] at hmem
    rcases hmem with h | h | h
    · exact absurd h (by decide)
    · exact upperHex_ne_slash (b / 16) (by omega) h
    · exact upperHex_ne_slash (b % 16) (by omega) h

theorem slash_not_mem_encodeURIComponent {s e : JsString} (h : encodeURIComponent s = some e) :
    unit '/' ∉ e := by
  obtain ⟨points, hpoints, rfl⟩ := Option.map_eq_some_iff.mp h
  intro hmem
  obtain ⟨p, hp, hmem⟩ := List.mem_flatMap.mp hmem
  exact slash_not_mem_encodePoint (lt_of_mem_codePoints hpoints p hp) hmem

example : encodeURIComponent (js "a/b") = some (js "a%2Fb") := by decide

end Js
end CmTrace
