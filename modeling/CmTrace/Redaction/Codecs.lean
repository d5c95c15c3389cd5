import CmTrace.Text.Hex
import CmTrace.Text.Json

/-!
# Escaped values

A sensitive value inside escaped JSON or between entities is decoded, projected and
encoded again.  The entities come back as they were.  Of the control characters only
those with a letter of their own do: the others are written with four digits, which
the decoder does not read.
-/

namespace CmTrace
namespace Redaction

open Text

/-! ## JSON escapes -/

def jsonLetter : Char → Option Char
  | '"' => some '"'
  | '\\' => some '\\'
  | '/' => some '/'
  | 'b' => some '\x08'
  | 'f' => some '\x0c'
  | 'n' => some '\n'
  | 'r' => some '\r'
  | 't' => some '\t'
  | _ => none

def decodeJsonEscapedValue : Text → Text
  | [] => []
  | [c] => [c]
  | c :: other :: rest =>
    if c = '\\' then
      match jsonLetter other with
      | some character => character :: decodeJsonEscapedValue rest
      | none => '\\' :: other :: decodeJsonEscapedValue rest
    else c :: decodeJsonEscapedValue (other :: rest)

def letterOf : Char → Option Char
  | '"' => some '"'
  | '\\' => some '\\'
  | '\x08' => some 'b'
  | '\x0c' => some 'f'
  | '\n' => some 'n'
  | '\r' => some 'r'
  | '\t' => some 't'
  | _ => none

def encodeJsonCharacter (character : Char) : Text :=
  match letterOf character with
  | some letter => ['\\', letter]
  | none =>
    if isControl character then '\\' :: 'u' :: hexLower 4 character.toNat else [character]

def encodeJsonEscapedValue (value : Text) : Text := value.flatMap encodeJsonCharacter

def isUnlettered (c : Char) : Bool := isControl c && (letterOf c).isNone

theorem jsonLetter_of_letterOf {c letter : Char} (h : letterOf c = some letter) :
    jsonLetter letter = some c := by
  unfold letterOf at h
  split at h <;> cases h <;> rfl

theorem decode_letter {letter c : Char} (h : jsonLetter letter = some c) (rest : Text) :
    decodeJsonEscapedValue ('\\' :: letter :: rest) = c :: decodeJsonEscapedValue rest := by
  rw [decodeJsonEscapedValue, if_pos rfl, h]

theorem decode_other {letter : Char} (h : jsonLetter letter = none) (rest : Text) :
    decodeJsonEscapedValue ('\\' :: letter :: rest) =
      '\\' :: letter :: decodeJsonEscapedValue rest := by
  rw [decodeJsonEscapedValue, if_pos rfl, h]

theorem decode_plain {c : Char} (h : c ≠ '\\') (rest : Text) :
    decodeJsonEscapedValue (c :: rest) = c :: decodeJsonEscapedValue rest := by
  cases rest with
  | nil => rfl
  | cons other rest => rw [decodeJsonEscapedValue, if_neg h]

theorem decode_plain_append {plain : Text} (h : '\\' ∉ plain) (rest : Text) :
    decodeJsonEscapedValue (plain ++ rest) = plain ++ decodeJsonEscapedValue rest := by
  induction plain with
  | nil => rfl
  | cons c plain ih =>
    rw [List.mem_cons, not_or] at h
    rw [List.cons_append, decode_plain (Ne.symm h.1), ih h.2, List.cons_append]

def recovered (c : Char) : Text := if isUnlettered c then encodeJsonCharacter c else [c]

theorem decode_encodeJsonCharacter (c : Char) (rest : Text) :
    decodeJsonEscapedValue (encodeJsonCharacter c ++ rest) =
      recovered c ++ decodeJsonEscapedValue rest := by
  cases hletter : letterOf c with
  | some letter =>
    have hlettered : isUnlettered c = false := by
      rw [isUnlettered, hletter]
      exact Bool.and_false _
    rw [recovered, hlettered, encodeJsonCharacter, hletter]
    exact decode_letter (jsonLetter_of_letterOf hletter) rest
  | none =>
    cases hcontrol : isControl c with
    | true =>
      have hdigits : '\\' ∉ hexLower 4 c.toNat := by
        intro hmem
        obtain ⟨d, hd, heq⟩ := mem_hexLower hmem
        revert d
        decide
      have hunlettered : isUnlettered c = true := by
        rw [isUnlettered, hletter, hcontrol]
        rfl
      rw [recovered, if_pos hunlettered, encodeJsonCharacter, hletter, hcontrol]
      simp only [if_true, List.cons_append]
      rw [decode_other (by rfl), decode_plain_append hdigits]
    | false =>
      have hplain : c ≠ '\\' := by
        rintro rfl
        cases hletter
      rw [recovered, isUnlettered, hcontrol, encodeJsonCharacter, hletter, hcontrol]
      exact decode_plain hplain rest

theorem decode_encodeJson (value : Text) :
    decodeJsonEscapedValue (encodeJsonEscapedValue value) = value.flatMap recovered := by
  induction value with
  | nil => rfl
  | cons c value ih =>
    rw [encodeJsonEscapedValue, List.flatMap_cons, decode_encodeJsonCharacter, List.flatMap_cons]
    rw [encodeJsonEscapedValue] at ih
    rw [ih]

theorem length_recovered {c : Char} (h : isUnlettered c = true) : (recovered c).length = 6 := by
  obtain ⟨hcontrol, hletter⟩ := Bool.and_eq_true_iff.mp h
  have hlt : c.toNat < 16 ^ 4 := by
    simp only [isControl, Bool.or_eq_true, Bool.and_eq_true, decide_eq_true_eq] at hcontrol
    omega
  rw [recovered, if_pos h, encodeJsonCharacter, Option.isNone_iff_eq_none.mp hletter,
    if_pos hcontrol,
    List.length_cons, List.length_cons, length_hexLower (by omega) hlt]

theorem length_flatMap_recovered (value : Text) :
    (value.flatMap recovered).length = value.length + 5 * value.countP isUnlettered := by
  induction value with
  | nil => rfl
  | cons c value ih =>
    rw [List.flatMap_cons, List.length_append, ih, List.length_cons, List.countP_cons]
    cases hc : isUnlettered c with
    | true =>
      rw [length_recovered hc, if_pos rfl]
      omega
    | false =>
      have hsingle : (recovered c).length = 1 := by
        rw [recovered, hc]
        rfl
      rw [hsingle, if_neg Bool.false_ne_true]
      omega

theorem decode_encodeJson_iff (value : Text) :
    decodeJsonEscapedValue (encodeJsonEscapedValue value) = value ↔
      ∀ c ∈ value, isUnlettered c = false := by
  rw [decode_encodeJson]
  constructor
  · intro h c hc
    have hlen := congrArg List.length h
    rw [length_flatMap_recovered] at hlen
    have hnone : value.countP isUnlettered = 0 := by omega
    exact Bool.eq_false_iff.mpr (List.countP_eq_zero.mp hnone c hc)
  · intro h
    have hsingle : ∀ c ∈ value, recovered c = [c] := by
      intro c hc
      rw [recovered, h c hc]
      rfl
    rw [List.flatMap_congr hsingle, List.flatMap_singleton']

/-! ## Entities -/

def maxNumericEntityBodyBytes : Nat := 10

def entities : List (Text × Char) :=
  [("&quot;".toList, '"'), ("&apos;".toList, '\''), ("&amp;".toList, '&'), ("&lt;".toList, '<'),
    ("&gt;".toList, '>')]

def after (front s : Text) : Option Text :=
  if front.isPrefixOf s then some (s.drop front.length) else none

def namedEntity (remainder : Text) : Option (Char × Text) :=
  entities.findSome? fun entity => (after entity.1 remainder).map fun rest => (entity.2, rest)

def charFromU32 (n : Nat) : Option Char :=
  if h : n.isValidChar then some (Char.ofNatAux n h) else none

def entityNumber (number : Text) : Option Nat :=
  match number with
  | 'x' :: hex | 'X' :: hex => parseUnsigned 16 u32Max hex
  | _ => parseUnsigned 10 u32Max number

def numericEntity (remainder : Text) : Option (Char × Text) := do
  let rest ← after "&#".toList remainder
  let body ← splitOnce ';' rest
  if byteLen body.1 ≤ maxNumericEntityBodyBytes then
    let character ← (entityNumber body.1).bind charFromU32
    return (character, body.2)
  else none

def entityAt (remainder : Text) : Option (Char × Text) :=
  (namedEntity remainder).or (numericEntity remainder)

theorem after_append {front s rest : Text} (h : after front s = some rest) : s = front ++ rest := by
  rw [after] at h
  split_ifs at h with hprefix
  obtain ⟨tail, rfl⟩ := List.isPrefixOf_iff_prefix.mp hprefix
  cases h
  rw [List.drop_left]

theorem length_splitOnce {sep : Char} {s : Text} {parts : Text × Text}
    (h : splitOnce sep s = some parts) : parts.2.length < s.length := by
  induction s generalizing parts with
  | nil => cases h
  | cons c s ih =>
    rw [splitOnce] at h
    split_ifs at h with hc
    · cases h
      exact Nat.lt_succ_self _
    · obtain ⟨inner, hinner, hparts⟩ := Option.map_eq_some_iff.mp h
      have hshorter := ih hinner
      rw [← hparts]
      exact Nat.lt_succ_of_lt hshorter

theorem entityAt_length {remainder : Text} {found : Char × Text}
    (h : entityAt remainder = some found) :
    found.2.length < remainder.length := by
  rcases Option.or_eq_some_iff.mp h with h | ⟨_, h⟩
  · obtain ⟨entity, hentity, h⟩ := List.exists_of_findSome?_eq_some h
    obtain ⟨rest, hrest, rfl⟩ := Option.map_eq_some_iff.mp h
    have hlong : ∀ e ∈ entities, 0 < e.1.length := by decide
    have hpos := hlong entity hentity
    rw [after_append hrest, List.length_append]
    show rest.length < _
    omega
  · rw [numericEntity] at h
    obtain ⟨rest, hrest, h⟩ := Option.bind_eq_some_iff.mp h
    obtain ⟨body, hbody, h⟩ := Option.bind_eq_some_iff.mp h
    split_ifs at h
    obtain ⟨character, _, h⟩ := Option.bind_eq_some_iff.mp h
    cases h
    have hshorter := length_splitOnce hbody
    rw [after_append hrest, List.length_append]
    show body.2.length < _
    omega

def decodeEntityValue : Text → Text
  | [] => []
  | c :: rest =>
    match _h : entityAt (c :: rest) with
    | some found => found.1 :: decodeEntityValue found.2
    | none => c :: decodeEntityValue rest
termination_by value => value.length
decreasing_by
  · exact entityAt_length _h
  · exact Nat.lt_succ_self _

def encodeEntityCharacter : Char → Text
  | '&' => "&amp;".toList
  | '"' => "&quot;".toList
  | '\'' => "&apos;".toList
  | '<' => "&lt;".toList
  | '>' => "&gt;".toList
  | character => [character]

def encodeEntityValue (value : Text) : Text := value.flatMap encodeEntityCharacter

theorem decode_entity {remainder : Text} {found : Char × Text}
    (h : entityAt remainder = some found) :
    decodeEntityValue remainder = found.1 :: decodeEntityValue found.2 := by
  cases remainder with
  | nil => exact absurd (entityAt_length h) (Nat.not_lt_zero _)
  | cons c rest =>
    rw [decodeEntityValue]
    split
    · rename_i found' hfound
      rw [h] at hfound
      cases hfound
      rfl
    · rename_i hnone
      rw [h] at hnone
      cases hnone

theorem entityAt_other {c : Char} (h : c ≠ '&') (rest : Text) : entityAt (c :: rest) = none := by
  have hafter : ∀ front, after ('&' :: front) (c :: rest) = none := by
    intro front
    rw [after, List.isPrefixOf, beq_false_of_ne (Ne.symm h), Bool.false_and]
    rfl
  rw [entityAt, Option.or_eq_none_iff]
  refine ⟨List.findSome?_eq_none_iff.mpr fun entity hentity => ?_, ?_⟩
  · have hfront : ∃ front, entity.1 = '&' :: front := by
      simp only [entities, List.mem_cons, List.not_mem_nil, or_false] at hentity
      rcases hentity with rfl | rfl | rfl | rfl | rfl <;> exact ⟨_, rfl⟩
    obtain ⟨front, hfront⟩ := hfront
    rw [hfront, hafter]
    rfl
  · show (after ('&' :: ['#']) (c :: rest)).bind _ = none
    rw [hafter]
    rfl

theorem decode_encodeEntityCharacter (c : Char) (rest : Text) :
    decodeEntityValue (encodeEntityCharacter c ++ rest) = c :: decodeEntityValue rest := by
  unfold encodeEntityCharacter
  split
  · exact @decode_entity _ ('&', rest) rfl
  · exact @decode_entity _ ('"', rest) rfl
  · exact @decode_entity _ ('\'', rest) rfl
  · exact @decode_entity _ ('<', rest) rfl
  · exact @decode_entity _ ('>', rest) rfl
  · rename_i hplain _ _ _ _
    rw [List.singleton_append, decodeEntityValue]
    split
    · rename_i found hfound
      rw [entityAt_other hplain] at hfound
      cases hfound
    · rfl

theorem decode_encodeEntity (value : Text) :
    decodeEntityValue (encodeEntityValue value) = value := by
  induction value with
  | nil => rw [encodeEntityValue, List.flatMap_nil, decodeEntityValue]
  | cons c value ih =>
    rw [encodeEntityValue, List.flatMap_cons, decode_encodeEntityCharacter]
    rw [encodeEntityValue] at ih
    rw [ih]

/-- Both codecs give a value back exactly when every control character in it has a
letter. -/
theorem codecs_round_trip_iff (value : Text) :
    (decodeJsonEscapedValue (encodeJsonEscapedValue value) = value ∧
        decodeEntityValue (encodeEntityValue value) = value) ↔
      ∀ c ∈ value, isControl c = true → c ∈ ['\x08', '\x0c', '\n', '\r', '\t'] := by
  have hlettered : ∀ c, isUnlettered c = false ↔
      (isControl c = true → c ∈ ['\x08', '\x0c', '\n', '\r', '\t']) := by
    intro c
    rw [isUnlettered]
    cases hletter : letterOf c with
    | some letter =>
      rw [Option.isNone_some, Bool.and_false]
      unfold letterOf at hletter
      split at hletter
      case h_8 => cases hletter
      all_goals decide
    | none =>
      rw [Option.isNone_none, Bool.and_true]
      constructor
      · intro hplain hcontrol
        rw [hplain] at hcontrol
        cases hcontrol
      · intro hmem
        by_contra hcontrol
        simp only [List.mem_cons, List.not_mem_nil, or_false] at hmem
        rcases hmem (Bool.not_eq_false _ ▸ hcontrol) with rfl | rfl | rfl | rfl | rfl <;>
          cases hletter
  rw [decode_encodeJson_iff, and_iff_left (decode_encodeEntity value)]
  exact forall₂_congr fun c _ => hlettered c

theorem codecs_alter_escape_control :
    ¬ (decodeJsonEscapedValue (encodeJsonEscapedValue ['\x1b']) = ['\x1b'] ∧
      decodeEntityValue (encodeEntityValue ['\x1b']) = ['\x1b']) := by
  intro h
  have hjson : decodeJsonEscapedValue (encodeJsonEscapedValue ['\x1b']) = "\\u001b".toList := by
    decide
  rw [hjson] at h
  exact absurd h.1 (by decide)

example : decodeEntityValue "&amp;lt; &#x41;&#65; &#+9;&#xFFFFFFFFF;".toList =
    "&lt; AA \t&#xFFFFFFFFF;".toList := by decide +kernel

end Redaction
end CmTrace
