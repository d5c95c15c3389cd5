import CmTrace.Js.Text
import CmTrace.Text.Basic
import CmTrace.Text.Hex
import CmTrace.Text.Json

/-!
# Bounded texts

A text that is too long keeps its first code points and a digest of the whole.  A
scan counts the bytes and remembers where the last code point ends that leaves room
for the digest; halves of pairs without their other half are replaced afterwards.
-/

namespace CmTrace
namespace Js

open Text Codec

/-! ## Code points -/

def replacement : Char := '\uFFFD'

/-- The character of a unit that is not half of a pair. -/
def loneChar (u : UInt16) : Char := if isHigh u || isLow u then replacement else .ofNat u.toNat

def pairPoint (u v : UInt16) : Nat := 0x10000 + (u.toNat - 0xD800) * 0x400 + (v.toNat - 0xDC00)

def isPair (u : UInt16) (rest : JsString) : Bool := isHigh u && rest.head?.any isLow

/-- The code points of a text, with a replacement for every lone surrogate. -/
def scalars : JsString → Text
  | [] => []
  | [u] => [loneChar u]
  | u :: v :: rest =>
    if isHigh u && isLow v then .ofNat (pairPoint u v) :: scalars rest
    else loneChar u :: scalars (v :: rest)

theorem scalars_pair {u v : UInt16} (hu : isHigh u = true) (hv : isLow v = true) (rest : JsString) :
    scalars (u :: v :: rest) = .ofNat (pairPoint u v) :: scalars rest := by
  rw [scalars, hu, hv]
  rfl

theorem scalars_lone {u : UInt16} {rest : JsString} (h : isPair u rest = false) :
    scalars (u :: rest) = loneChar u :: scalars rest := by
  cases rest with
  | nil => rfl
  | cons v rest =>
    rw [isPair, List.head?_cons, Option.any_some] at h
    rw [scalars, h]
    rfl

theorem units_induction {P : JsString → Prop} (nil : P [])
    (pair : ∀ u v rest, isHigh u = true → isLow v = true → P rest → P (u :: v :: rest))
    (lone : ∀ u rest, isPair u rest = false → P rest → P (u :: rest)) : ∀ s, P s
  | [] => nil
  | u :: rest => by
    cases h : isPair u rest with
    | false => exact lone u rest h (units_induction nil pair lone rest)
    | true =>
      cases rest with
      | nil => exact absurd h (by simp [isPair])
      | cons v rest =>
        rw [isPair, List.head?_cons, Option.any_some, Bool.and_eq_true] at h
        exact pair u v rest h.1 h.2 (units_induction nil pair lone rest)

theorem ofNat_toNat_of_valid {n : Nat} (h : n < 0xD800 ∨ 0xDFFF < n ∧ n < 0x110000) :
    (Char.ofNat n).toNat = n := by
  have hv : n.isValidChar := h
  rw [Char.ofNat, dif_pos hv]
  rfl

theorem isHigh_iff (u : UInt16) : isHigh u = true ↔ 0xD800 ≤ u.toNat ∧ u.toNat ≤ 0xDBFF := by
  rw [isHigh, isHighSurrogate, decide_eq_true_eq]

theorem isLow_iff (u : UInt16) : isLow u = true ↔ 0xDC00 ≤ u.toNat ∧ u.toNat ≤ 0xDFFF := by
  rw [isLow, isLowSurrogate, decide_eq_true_eq]

theorem pairPoint_valid {u v : UInt16} (hu : isHigh u = true) (hv : isLow v = true) :
    0x10000 ≤ pairPoint u v ∧ (Char.ofNat (pairPoint u v)).toNat = pairPoint u v := by
  rw [isHigh_iff] at hu
  rw [isLow_iff] at hv
  have hrange : 0x10000 ≤ pairPoint u v ∧ pairPoint u v < 0x110000 := by
    unfold pairPoint
    omega
  exact ⟨hrange.1, ofNat_toNat_of_valid (by omega)⟩

theorem loneChar_toNat (u : UInt16) :
    (loneChar u).toNat = if isHigh u || isLow u then 0xFFFD else u.toNat := by
  rw [loneChar]
  split_ifs with h
  · rfl
  · rw [Bool.or_eq_true, isHigh_iff, isLow_iff] at h
    have hlt := u.toNat_lt
    exact ofNat_toNat_of_valid (by omega)

/-! ## Scan -/

def digestSuffixByteLength : Nat := 31

structure CodePoint where
  codePoint : Nat
  codeUnitLength : Nat
  loneSurrogate : Bool

/-- The code point at a unit, with the unit after it if there is one. -/
def readCodePoint (firstUnit : UInt16) (secondUnit : Option UInt16) : CodePoint :=
  if isHigh firstUnit then
    match secondUnit.filter isLow with
    | some secondUnit =>
      { codePoint      := pairPoint firstUnit secondUnit
        codeUnitLength := 2
        loneSurrogate  := false }
    | none => { codePoint := 0xFFFD, codeUnitLength := 1, loneSurrogate := true }
  else if isLow firstUnit then { codePoint := 0xFFFD, codeUnitLength := 1, loneSurrogate := true }
  else { codePoint := firstUnit.toNat, codeUnitLength := 1, loneSurrogate := false }

def codePointBytes (codePoint : Nat) : List Nat :=
  if codePoint ≤ 0x7F then [codePoint]
  else if codePoint ≤ 0x7FF then [0xC0 ||| (codePoint >>> 6), 0x80 ||| (codePoint &&& 0x3F)]
  else if codePoint ≤ 0xFFFF then
    [0xE0 ||| (codePoint >>> 12), 0x80 ||| ((codePoint >>> 6) &&& 0x3F),
      0x80 ||| (codePoint &&& 0x3F)]
  else
    [0xF0 ||| (codePoint >>> 18), 0x80 ||| ((codePoint >>> 12) &&& 0x3F),
      0x80 ||| ((codePoint >>> 6) &&& 0x3F), 0x80 ||| (codePoint &&& 0x3F)]

/-- The two lanes of the digest. -/
structure Lanes where
  first : UInt32
  second : UInt32

def Lanes.initial : Lanes := { first := 2166136261, second := 2166136261 ^^^ 0x9E3779B9 }

def Lanes.hash (lanes : Lanes) (byte : Nat) : Lanes :=
  { first  := (lanes.first ^^^ .ofNat byte) * 16777619
    second := (lanes.second ^^^ (.ofNat byte ^^^ 0xA5)) * 16777619 }

structure Utf8Scan where
  byteLength : Nat := 0
  lanes : Lanes := .initial
  prefixEnd : Nat := 0
  prefixHasLoneSurrogate : Bool := false

def Utf8Scan.step (scan : Utf8Scan) (prefixByteLimit index : Nat) (point : CodePoint) : Utf8Scan :=
  let bytes := codePointBytes point.codePoint
  let fits := decide (scan.byteLength + bytes.length ≤ prefixByteLimit)
  { byteLength             := scan.byteLength + bytes.length
    lanes                  := bytes.foldl Lanes.hash scan.lanes
    prefixEnd              := if fits then index + point.codeUnitLength else scan.prefixEnd
    prefixHasLoneSurrogate :=
      if fits then scan.prefixHasLoneSurrogate || point.loneSurrogate
      else scan.prefixHasLoneSurrogate }

def scanFrom (prefixByteLimit : Nat) (scan : Utf8Scan) (index : Nat) : JsString → Utf8Scan
  | [] => scan
  | unit :: rest =>
    let point := readCodePoint unit rest.head?
    scanFrom prefixByteLimit (scan.step prefixByteLimit index point) (index + point.codeUnitLength)
      (rest.drop (point.codeUnitLength - 1))
termination_by s => s.length
decreasing_by
  rw [List.length_drop, List.length_cons]
  omega

def scanUtf8 (value : JsString) (prefixByteLimit : Nat) : Utf8Scan :=
  scanFrom prefixByteLimit {} 0 value

/-- `result` is written, `segment` is what is left of the text before the index. -/
def replaceFrom (result segment : JsString) : JsString → JsString
  | [] => result ++ segment
  | unit :: rest =>
    -- a pair stays in the segment
    if isPair unit rest then replaceFrom result (segment ++ unit :: rest.take 1) (rest.drop 1)
    else if isHigh unit || isLow unit then replaceFrom (result ++ segment ++ [0xFFFD]) [] rest
    else replaceFrom result (segment ++ [unit]) rest
termination_by s => s.length
decreasing_by
  · rw [List.length_drop, List.length_cons]
    omega
  · exact Nat.lt_succ_self _
  · exact Nat.lt_succ_self _

def replaceLoneSurrogates (value : JsString) : JsString := replaceFrom [] [] value

def textDigest (lanes : Lanes) : Text :=
  hexLower 8 lanes.first.toNat ++ hexLower 8 lanes.second.toNat

def digestOpening : Text := "…[truncated:".toList

def digestSuffix (lanes : Lanes) : Text := digestOpening ++ (textDigest lanes ++ [']'])

def tooSmall : String := "The UTF-8 bound is too small for its digest suffix."

def boundUtf8WithDigest (value : JsString) (byteLimit : Nat) : Except String JsString :=
  let scan := scanUtf8 value (byteLimit - digestSuffixByteLength)
  if scan.byteLength ≤ byteLimit then .ok value
  else if digestSuffixByteLength > byteLimit then .error tooSmall
  else
    let pre := value.take scan.prefixEnd
    .ok ((if scan.prefixHasLoneSurrogate then replaceLoneSurrogates pre else pre) ++
      encodeUtf16 (digestSuffix scan.lanes))

/-! ## What is read -/

theorem readCodePoint_pair {u v : UInt16} (hu : isHigh u = true) (hv : isLow v = true) :
    readCodePoint u (some v) = ⟨(Char.ofNat (pairPoint u v)).toNat, 2, false⟩ := by
  rw [readCodePoint, if_pos hu, Option.filter_some, if_pos hv, (pairPoint_valid hu hv).2]

theorem readCodePoint_lone {u : UInt16} {rest : JsString} (h : isPair u rest = false) :
    readCodePoint u rest.head? = ⟨(loneChar u).toNat, 1, isHigh u || isLow u⟩ := by
  rw [readCodePoint, loneChar_toNat]
  cases hu : isHigh u with
  | true =>
    have hnone : rest.head?.filter isLow = none := by
      rw [isPair, hu, Bool.true_and] at h
      cases hhead : rest.head? with
      | none => rfl
      | some v =>
        rw [hhead, Option.any_some] at h
        rw [Option.filter_some, h]
        rfl
    rw [hnone]
    rfl
  | false =>
    cases hv : isLow u with
    | true => rfl
    | false => rfl

theorem length_codePointBytes (c : Char) : (codePointBytes c.toNat).length = c.utf8Size := by
  rw [codePointBytes, Char.utf8Size]
  simp only [UInt32.le_iff_toNat_le, UInt32.toNat_ofNatLT, Char.toNat]
  split_ifs <;> rfl

theorem scanFrom_pair {u v : UInt16} (hu : isHigh u = true) (hv : isLow v = true)
    (limit index : Nat) (scan : Utf8Scan) (rest : JsString) :
    scanFrom limit scan index (u :: v :: rest) =
      scanFrom limit (scan.step limit index ⟨(Char.ofNat (pairPoint u v)).toNat, 2, false⟩)
        (index + 2) rest := by
  rw [scanFrom]
  simp only [List.head?_cons, readCodePoint_pair hu hv]
  rfl

theorem scanFrom_lone {u : UInt16} {rest : JsString} (h : isPair u rest = false) (limit index : Nat)
    (scan : Utf8Scan) :
    scanFrom limit scan index (u :: rest) =
      scanFrom limit (scan.step limit index ⟨(loneChar u).toNat, 1, isHigh u || isLow u⟩)
        (index + 1) rest := by
  rw [scanFrom]
  simp only [readCodePoint_lone h]
  rfl

@[simp]
theorem step_byteLength (scan : Utf8Scan) (limit index length : Nat) (c : Char) (lone : Bool) :
    (scan.step limit index ⟨c.toNat, length, lone⟩).byteLength = scan.byteLength + c.utf8Size := by
  rw [← length_codePointBytes]
  rfl

def scalarBytes (s : Text) : List Nat := s.flatMap fun c => codePointBytes c.toNat

theorem step_lanes (scan : Utf8Scan) (limit index n length : Nat) (lone : Bool) :
    (scan.step limit index ⟨n, length, lone⟩).lanes =
      (codePointBytes n).foldl Lanes.hash scan.lanes := rfl

theorem scalarBytes_cons (c : Char) (s : Text) :
    scalarBytes (c :: s) = codePointBytes c.toNat ++ scalarBytes s := List.flatMap_cons

theorem scanFrom_total (limit : Nat) (s : JsString) : ∀ (scan : Utf8Scan) (index : Nat),
    (scanFrom limit scan index s).byteLength = scan.byteLength + byteLen (scalars s) ∧
      (scanFrom limit scan index s).lanes =
        (scalarBytes (scalars s)).foldl Lanes.hash scan.lanes := by
  induction s using units_induction with
  | nil =>
    intro scan index
    rw [scanFrom]
    exact ⟨rfl, rfl⟩
  | pair u v rest hu hv ih =>
    intro scan index
    obtain ⟨hbytes, hlanes⟩ := ih (scan.step limit index ⟨_, 2, false⟩) (index + 2)
    rw [scanFrom_pair hu hv, hbytes, hlanes, step_byteLength, scalars_pair hu hv, byteLen_cons,
      scalarBytes_cons, List.foldl_append, step_lanes, Nat.add_assoc]
    exact ⟨rfl, rfl⟩
  | lone u rest h ih =>
    intro scan index
    obtain ⟨hbytes, hlanes⟩ := ih (scan.step limit index ⟨_, 1, isHigh u || isLow u⟩) (index + 1)
    rw [scanFrom_lone h, hbytes, hlanes, step_byteLength, scalars_lone h, byteLen_cons,
      scalarBytes_cons, List.foldl_append, step_lanes, Nat.add_assoc]
    exact ⟨rfl, rfl⟩

/-! ## Where the prefix ends -/

def hasLone : JsString → Bool
  | [] => false
  | u :: rest =>
    if isPair u rest then hasLone rest.tail else isHigh u || isLow u || hasLone rest
termination_by s => s.length
decreasing_by
  · rw [List.length_tail, List.length_cons]
    omega
  · exact Nat.lt_succ_self _

theorem hasLone_pair {u v : UInt16} (hu : isHigh u = true) (hv : isLow v = true) (rest : JsString) :
    hasLone (u :: v :: rest) = hasLone rest := by
  have hpair : isPair u (v :: rest) = true := by
    rw [isPair, hu, List.head?_cons, Option.any_some, hv]
    rfl
  rw [hasLone, if_pos hpair, List.tail_cons]

theorem hasLone_lone {u : UInt16} {rest : JsString} (h : isPair u rest = false) :
    hasLone (u :: rest) = (isHigh u || isLow u || hasLone rest) := by
  rw [hasLone, h]
  rfl

theorem isPair_of_prefix {u : UInt16} {taken rest : JsString} (h : isPair u rest = false)
    (hpre : taken <+: rest) : isPair u taken = false := by
  obtain ⟨left, rfl⟩ := hpre
  cases taken with
  | nil => exact Bool.and_false _
  | cons v taken => exact h

theorem scanFrom_past {limit : Nat} (s : JsString) : ∀ {scan : Utf8Scan} {index : Nat},
    limit < scan.byteLength →
      (scanFrom limit scan index s).prefixEnd = scan.prefixEnd ∧
        (scanFrom limit scan index s).prefixHasLoneSurrogate = scan.prefixHasLoneSurrogate := by
  have hstep : ∀ {scan : Utf8Scan} {index : Nat} {point : CodePoint}, limit < scan.byteLength →
      limit < (scan.step limit index point).byteLength ∧
        (scan.step limit index point).prefixEnd = scan.prefixEnd ∧
        (scan.step limit index point).prefixHasLoneSurrogate = scan.prefixHasLoneSurrogate := by
    intro scan index point h
    have hpast : ¬ scan.byteLength + (codePointBytes point.codePoint).length ≤ limit := by omega
    refine ⟨Nat.lt_of_lt_of_le h (Nat.le_add_right _ _), ?_, ?_⟩
    · simp only [Utf8Scan.step, decide_eq_true_eq, if_neg hpast]
    · simp only [Utf8Scan.step, decide_eq_true_eq, if_neg hpast]
  induction s using units_induction with
  | nil =>
    intro scan index _
    rw [scanFrom]
    exact ⟨rfl, rfl⟩
  | pair u v rest hu hv ih =>
    intro scan index h
    rw [scanFrom_pair hu hv]
    obtain ⟨hbytes, hend, hlone⟩ := hstep h
    obtain ⟨hend', hlone'⟩ := ih hbytes
    exact ⟨hend'.trans hend, hlone'.trans hlone⟩
  | lone u rest hpair ih =>
    intro scan index h
    rw [scanFrom_lone hpair]
    obtain ⟨hbytes, hend, hlone⟩ := hstep h
    obtain ⟨hend', hlone'⟩ := ih hbytes
    exact ⟨hend'.trans hend, hlone'.trans hlone⟩

/-- The prefix of a scan from `index` on, in units and in code points. -/
def EndsPrefix (limit index : Nat) (scan last : Utf8Scan) (s : JsString) : Prop :=
  ∃ taken, taken <+: s ∧ scalars taken = takeBytes (limit - scan.byteLength) (scalars s) ∧
    last.prefixEnd = index + taken.length ∧
    last.prefixHasLoneSurrogate = (scan.prefixHasLoneSurrogate || hasLone taken)

theorem endsPrefix_stop {limit index length : Nat} {c : Char} {lone : Bool} {scan : Utf8Scan}
    (hend : scan.prefixEnd = index) (hroom : ¬ c.utf8Size ≤ limit - scan.byteLength)
    (hfits : scan.byteLength ≤ limit) {s rest : JsString} {cs : Text} (hs : scalars s = c :: cs)
    {next : Nat} :
    EndsPrefix limit index scan
      (scanFrom limit (scan.step limit index ⟨c.toNat, length, lone⟩) next rest) s := by
  have hpast : ¬ scan.byteLength + (codePointBytes c.toNat).length ≤ limit := by
    rw [length_codePointBytes]
    omega
  have hover : limit < (scan.step limit index ⟨c.toNat, length, lone⟩).byteLength := by
    rw [step_byteLength]
    omega
  obtain ⟨hend', hlone'⟩ := @scanFrom_past limit rest _ next hover
  refine ⟨[], List.nil_prefix, ?_, ?_, ?_⟩
  · rw [hs, takeBytes, if_neg hroom]
    rfl
  · rw [hend']
    simp only [Utf8Scan.step, decide_eq_true_eq, if_neg hpast]
    exact hend
  · rw [hlone']
    simp only [Utf8Scan.step, decide_eq_true_eq, if_neg hpast]
    rw [hasLone, Bool.or_false]

theorem step_fits {limit index length : Nat} {c : Char} {lone : Bool} {scan : Utf8Scan}
    (hroom : c.utf8Size ≤ limit - scan.byteLength) (hfits : scan.byteLength ≤ limit) :
    (scan.step limit index ⟨c.toNat, length, lone⟩).byteLength ≤ limit ∧
      (scan.step limit index ⟨c.toNat, length, lone⟩).prefixEnd = index + length ∧
      (scan.step limit index ⟨c.toNat, length, lone⟩).prefixHasLoneSurrogate =
        (scan.prefixHasLoneSurrogate || lone) := by
  have hpast : scan.byteLength + (codePointBytes c.toNat).length ≤ limit := by
    rw [length_codePointBytes]
    omega
  refine ⟨hpast, ?_, ?_⟩
  · simp only [Utf8Scan.step, decide_eq_true_eq, if_pos hpast]
  · simp only [Utf8Scan.step, decide_eq_true_eq, if_pos hpast]

theorem scanFrom_prefixed {limit : Nat} (s : JsString) : ∀ {scan : Utf8Scan} {index : Nat},
    scan.byteLength ≤ limit → scan.prefixEnd = index →
      EndsPrefix limit index scan (scanFrom limit scan index s) s := by
  induction s using units_induction with
  | nil =>
    intro scan index _ hend
    rw [scanFrom]
    exact ⟨[], List.nil_prefix, rfl, hend, by rw [hasLone, Bool.or_false]⟩
  | pair u v rest hu hv ih =>
    intro scan index hfits hend
    rw [scanFrom_pair hu hv]
    have hscalars := scalars_pair hu hv rest
    by_cases hroom : (Char.ofNat (pairPoint u v)).utf8Size ≤ limit - scan.byteLength
    · obtain ⟨hbytes, hnext, hlone⟩ := @step_fits limit index 2 _ false _
        hroom hfits
      obtain ⟨taken, hpre, htaken, hlast, hlast'⟩ := ih hbytes hnext
      refine ⟨u :: v :: taken, List.prefix_cons_inj u |>.mpr (List.prefix_cons_inj v |>.mpr hpre),
        ?_, ?_, ?_⟩
      · rw [scalars_pair hu hv, htaken, hscalars, takeBytes, if_pos hroom, step_byteLength,
          Nat.sub_sub]
      · rw [hlast, List.length_cons, List.length_cons]
        omega
      · rw [hlast', hlone, hasLone_pair hu hv, Bool.or_false]
    · exact endsPrefix_stop hend hroom hfits hscalars
  | lone u rest h ih =>
    intro scan index hfits hend
    rw [scanFrom_lone h]
    have hscalars := scalars_lone h
    by_cases hroom : (loneChar u).utf8Size ≤ limit - scan.byteLength
    · obtain ⟨hbytes, hnext, hlone⟩ := @step_fits limit index 1 _
        (isHigh u || isLow u) _ hroom hfits
      obtain ⟨taken, hpre, htaken, hlast, hlast'⟩ := ih hbytes hnext
      have halone := isPair_of_prefix h hpre
      refine ⟨u :: taken, List.prefix_cons_inj u |>.mpr hpre, ?_, ?_, ?_⟩
      · rw [scalars_lone halone, htaken, hscalars, takeBytes, if_pos hroom, step_byteLength,
          Nat.sub_sub]
      · rw [hlast, List.length_cons]
        omega
      · rw [hlast', hlone, hasLone_lone halone, Bool.or_assoc, Bool.or_assoc]
    · exact endsPrefix_stop hend hroom hfits hscalars

/-! ## Replaced surrogates -/

theorem charUnits_pair {u v : UInt16} (hu : isHigh u = true) (hv : isLow v = true) :
    charUnits (.ofNat (pairPoint u v)) = [u, v] := by
  obtain ⟨hmin, htoNat⟩ := pairPoint_valid hu hv
  rw [isHigh_iff] at hu
  rw [isLow_iff] at hv
  have hhigh : 0xD800 + (pairPoint u v - 0x10000) / 0x400 = u.toNat := by
    unfold pairPoint
    omega
  have hlow : 0xDC00 + (pairPoint u v - 0x10000) % 0x400 = v.toNat := by
    unfold pairPoint
    omega
  rw [charUnits, htoNat, if_neg (by omega)]
  simp only [hhigh, hlow, UInt16.ofNat_toNat]

theorem charUnits_loneChar (u : UInt16) :
    charUnits (loneChar u) = [if isHigh u || isLow u then 0xFFFD else u] := by
  have hlt := u.toNat_lt
  rw [charUnits, loneChar_toNat]
  split_ifs <;> first | rfl | omega | rw [UInt16.ofNat_toNat]

theorem encodeUtf16_cons (c : Char) (s : Text) :
    encodeUtf16 (c :: s) = charUnits c ++ encodeUtf16 s :=
  List.flatMap_cons

theorem replaceFrom_eq (s : JsString) : ∀ result segment : JsString,
    replaceFrom result segment s = result ++ (segment ++ encodeUtf16 (scalars s)) := by
  induction s using units_induction with
  | nil =>
    intro result segment
    rw [replaceFrom, scalars]
    simp [encodeUtf16]
  | pair u v rest hu hv ih =>
    intro result segment
    have hpair : isPair u (v :: rest) = true := by
      rw [isPair, hu, List.head?_cons, Option.any_some, hv]
      rfl
    have hnext := ih result (segment ++ [u, v])
    rw [List.append_assoc] at hnext
    rw [replaceFrom, if_pos hpair, scalars_pair hu hv, encodeUtf16_cons, charUnits_pair hu hv]
    exact hnext
  | lone u rest h ih =>
    intro result segment
    rw [replaceFrom, h, scalars_lone h, encodeUtf16_cons, charUnits_loneChar]
    by_cases hlone : (isHigh u || isLow u) = true
    · simp only [hlone, if_true, if_false, Bool.false_eq_true, ih, List.append_assoc,
        List.cons_append, List.nil_append]
    · simp only [hlone, if_false, Bool.false_eq_true, ih, List.append_assoc, List.cons_append,
        List.nil_append]

theorem replaceLoneSurrogates_eq (s : JsString) :
    replaceLoneSurrogates s = encodeUtf16 (scalars s) := by
  rw [replaceLoneSurrogates, replaceFrom_eq, List.nil_append, List.nil_append]

theorem encodeUtf16_scalars (s : JsString) (h : hasLone s = false) :
    encodeUtf16 (scalars s) = s := by
  induction s using units_induction with
  | nil => rfl
  | pair u v rest hu hv ih =>
    rw [hasLone_pair hu hv] at h
    rw [scalars_pair hu hv, encodeUtf16_cons, charUnits_pair hu hv, ih h]
    rfl
  | lone u rest hpair ih =>
    rw [hasLone_lone hpair, Bool.or_eq_false_iff] at h
    rw [scalars_lone hpair, encodeUtf16_cons, charUnits_loneChar, h.1, ih h.2]
    rfl

/-! ## Bounds -/

theorem isHigh_or_isLow_of_unit {c : Char} (hc : c.toNat < 0x10000) :
    (isHigh (.ofNat c.toNat) || isLow (.ofNat c.toNat)) = false ∧
      loneChar (.ofNat c.toNat) = c := by
  have hunit : (UInt16.ofNat c.toNat).toNat = c.toNat := by
    rw [UInt16.toNat_ofNat', Nat.mod_eq_of_lt hc]
  have hnone : (isHigh (.ofNat c.toNat) || isLow (.ofNat c.toNat)) = false := by
    have hvalid : c.toNat < 0xD800 ∨ 0xDFFF < c.toNat ∧ c.toNat < 0x110000 := c.valid
    rw [Bool.or_eq_false_iff, ← Bool.not_eq_true, ← Bool.not_eq_true, isHigh_iff, isLow_iff, hunit]
    omega
  refine ⟨hnone, ?_⟩
  rw [loneChar, hnone, if_neg Bool.false_ne_true, hunit, Char.ofNat_toNat]

theorem scalars_charUnits (c : Char) (rest : JsString) :
    scalars (charUnits c ++ rest) = c :: scalars rest := by
  rw [charUnits]
  split_ifs with hc
  · obtain ⟨hnone, hchar⟩ := isHigh_or_isLow_of_unit hc
    have hlone : isPair (.ofNat c.toNat) rest = false := by
      rw [isPair, (Bool.or_eq_false_iff.mp hnone).1, Bool.false_and]
    rw [List.singleton_append, scalars_lone hlone, hchar]
  · have hmax : c.toNat < 0x110000 := by
      have hvalid : c.toNat < 0xD800 ∨ 0xDFFF < c.toNat ∧ c.toNat < 0x110000 := c.valid
      omega
    have hhigh : (UInt16.ofNat (0xD800 + (c.toNat - 0x10000) / 0x400)).toNat =
        0xD800 + (c.toNat - 0x10000) / 0x400 := by
      rw [UInt16.toNat_ofNat', Nat.mod_eq_of_lt (by omega)]
    have hlow : (UInt16.ofNat (0xDC00 + (c.toNat - 0x10000) % 0x400)).toNat =
        0xDC00 + (c.toNat - 0x10000) % 0x400 := by
      rw [UInt16.toNat_ofNat', Nat.mod_eq_of_lt (by omega)]
    have hpoint : pairPoint (.ofNat (0xD800 + (c.toNat - 0x10000) / 0x400))
        (.ofNat (0xDC00 + (c.toNat - 0x10000) % 0x400)) = c.toNat := by
      unfold pairPoint
      omega
    refine (scalars_pair ((isHigh_iff _).mpr ?_) ((isLow_iff _).mpr ?_) rest).trans ?_
    · rw [hhigh]
      omega
    · rw [hlow]
      omega
    · rw [hpoint, Char.ofNat_toNat]

theorem scalars_encodeUtf16 (s : Text) : scalars (encodeUtf16 s) = s := by
  induction s with
  | nil => rfl
  | cons c s ih => rw [encodeUtf16_cons, scalars_charUnits, ih]

theorem utf8Length_eq (s : JsString) : utf8Length s = byteLen (scalars s) := by
  have hpairSize : ∀ {u v : UInt16}, isHigh u = true → isLow v = true →
      (Char.ofNat (pairPoint u v)).utf8Size = 4 := by
    intro u v hu hv
    obtain ⟨hmin, htoNat⟩ := pairPoint_valid hu hv
    rw [← length_codePointBytes, htoNat, codePointBytes, if_neg (by omega), if_neg (by omega),
      if_neg (by omega)]
    rfl
  have hloneSize : ∀ u : UInt16, (loneChar u).utf8Size = unitBytes u := by
    intro u
    have hlt := u.toNat_lt
    rw [← length_codePointBytes, loneChar_toNat, unitBytes]
    by_cases hlone : (isHigh u || isLow u) = true
    · rw [if_pos hlone]
      rw [Bool.or_eq_true, isHigh_iff, isLow_iff] at hlone
      rw [if_neg (by omega), if_neg (by omega)]
      rfl
    · rw [if_neg hlone, codePointBytes]
      split_ifs <;> first | rfl | omega
  induction s using units_induction with
  | nil => rfl
  | pair u v rest hu hv ih =>
    rw [utf8Length, hu, hv, scalars_pair hu hv, byteLen_cons, hpairSize hu hv, ih]
    rfl
  | lone u rest h ih =>
    rw [scalars_lone h, byteLen_cons, hloneSize, ← ih]
    cases rest with
    | nil => rfl
    | cons v rest =>
      rw [isPair, List.head?_cons, Option.any_some] at h
      rw [utf8Length, h]
      rfl

theorem byteLen_digestSuffix (lanes : Lanes) :
    byteLen (digestSuffix lanes) = digestSuffixByteLength := by
  have hsize : ∀ d < 16, (Nat.digitChar d).utf8Size = 1 := by decide
  have hlane : ∀ lane : UInt32, byteLen (hexLower 8 lane.toNat) = 8 := by
    intro lane
    have hlt : lane.toNat < 16 ^ 8 := lane.toNat_lt
    refine (byteLen_eq_length fun c hc => ?_).trans (length_hexLower (by omega) hlt)
    obtain ⟨d, hd, rfl⟩ := mem_hexLower hc
    exact hsize d hd
  have hopen : byteLen digestOpening = 14 := by decide
  have hclose : byteLen [']'] = 1 := by decide
  rw [digestSuffix, byteLen_append, textDigest, byteLen_append, byteLen_append, hlane, hlane, hopen,
    hclose, digestSuffixByteLength]

/-- The digest of a text is over its whole UTF-8 form. -/
def digestLanes (value : JsString) : Lanes :=
  (scalarBytes (scalars value)).foldl Lanes.hash .initial

/-- The longest prefix that fits before the digest. -/
def IsBoundedPrefix (value : JsString) (room : Nat) (p : Text) : Prop :=
  p <+: scalars value ∧ byteLen p ≤ room ∧
    ∀ q, q <+: scalars value → byteLen q ≤ room → q <+: p

theorem boundUtf8WithDigest_eq (value : JsString) {byteLimit : Nat}
    (hlimit : digestSuffixByteLength ≤ byteLimit) :
    boundUtf8WithDigest value byteLimit =
      .ok (if utf8Length value ≤ byteLimit then value
        else encodeUtf16 (takeBytes (byteLimit - digestSuffixByteLength) (scalars value) ++
          digestSuffix (digestLanes value))) := by
  obtain ⟨hbytes, hlanes⟩ := scanFrom_total (byteLimit - digestSuffixByteLength) value {} 0
  obtain ⟨taken, ⟨left, hvalue⟩, htaken, hend, hlone⟩ :=
    @scanFrom_prefixed (byteLimit - digestSuffixByteLength) value {} 0
      (Nat.zero_le _) rfl
  have hbytes' : (scanUtf8 value (byteLimit - digestSuffixByteLength)).byteLength =
      utf8Length value := by
    rw [utf8Length_eq, scanUtf8, hbytes]
    exact Nat.zero_add _
  have hlanes' : (scanUtf8 value (byteLimit - digestSuffixByteLength)).lanes =
      digestLanes value := hlanes
  have hslice : value.take (scanUtf8 value (byteLimit - digestSuffixByteLength)).prefixEnd =
      taken := by
    rw [scanUtf8, hend, Nat.zero_add, ← hvalue, List.take_left]
  have hlone' : (scanUtf8 value (byteLimit - digestSuffixByteLength)).prefixHasLoneSurrogate =
      hasLone taken := hlone.trans (Bool.false_or _)
  have hkept : (if hasLone taken = true then replaceLoneSurrogates taken else taken) =
      encodeUtf16 (scalars taken) := by
    split_ifs with h
    · exact replaceLoneSurrogates_eq taken
    · exact (encodeUtf16_scalars taken (Bool.not_eq_true _ ▸ h)).symm
  rw [boundUtf8WithDigest]
  simp only [hbytes', hlanes', hslice, hlone', hkept, htaken]
  split_ifs with hfits htooSmall
  · rfl
  · omega
  · rw [encodeUtf16_append]
    rfl

/-- A text within the limit is kept; of any other text the longest prefix of code
points that leaves room for the digest is, with lone surrogates replaced. -/
theorem boundUtf8WithDigest_spec (value : JsString) {byteLimit : Nat}
    (hlimit : digestSuffixByteLength ≤ byteLimit) :
    ∃ result, boundUtf8WithDigest value byteLimit = .ok result ∧
      utf8Length result ≤ byteLimit ∧
      (utf8Length value ≤ byteLimit → result = value) ∧
      (byteLimit < utf8Length value →
        byteLen (digestSuffix (digestLanes value)) = digestSuffixByteLength ∧
        ∃ p, IsBoundedPrefix value (byteLimit - digestSuffixByteLength) p ∧
          result = encodeUtf16 (p ++ digestSuffix (digestLanes value))) := by
  refine ⟨_, boundUtf8WithDigest_eq value hlimit, ?_, fun h => if_pos h, fun h => ?_⟩
  · split_ifs with hfits
    · exact hfits
    · have hpre := byteLen_takeBytes_le (byteLimit - digestSuffixByteLength) (scalars value)
      rw [utf8Length_eq, scalars_encodeUtf16, byteLen_append, byteLen_digestSuffix]
      omega
  · refine ⟨byteLen_digestSuffix _, takeBytes (byteLimit - digestSuffixByteLength) (scalars value),
      ⟨takeBytes_prefixed _ _, byteLen_takeBytes_le _ _,
        fun q hq hlen => takeBytes_longest hq hlen⟩, ?_⟩
    exact if_neg (Nat.not_le.mpr h)

theorem boundUtf8WithDigest_spec_lone :
    ∃ result, boundUtf8WithDigest (0xD800 :: List.replicate 11 0x20AC) 35 = .ok result ∧
      utf8Length result ≤ 35 ∧
      (utf8Length (0xD800 :: List.replicate 11 0x20AC) ≤ 35 →
        result = 0xD800 :: List.replicate 11 0x20AC) ∧
      (35 < utf8Length (0xD800 :: List.replicate 11 0x20AC) →
        byteLen (digestSuffix (digestLanes (0xD800 :: List.replicate 11 0x20AC))) =
            digestSuffixByteLength ∧
        ∃ p, IsBoundedPrefix (0xD800 :: List.replicate 11 0x20AC) (35 - digestSuffixByteLength) p ∧
          result = encodeUtf16
            (p ++ digestSuffix (digestLanes (0xD800 :: List.replicate 11 0x20AC)))) :=
  boundUtf8WithDigest_spec (0xD800 :: List.replicate 11 0x20AC) (by decide)

end Js
end CmTrace
