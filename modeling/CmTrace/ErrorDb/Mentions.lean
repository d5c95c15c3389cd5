import CmTrace.ErrorDb.Lookup
import CmTrace.Text.Basic
import CmTrace.Text.Occurrences

/-!
# Error codes mentioned in a message

Two scanners report the prefixed codes of a message with their offsets in UTF-16
units: one those the database knows, the other all of them.  The first counts the
units from the start for each code, the second from the code before.
-/

namespace CmTrace
namespace ErrorDb

open Text
open CmTrace.Parser (contains)

inductive ErrorCodeOutcome where
  | success
  | successRequiresAction
  | failure
  deriving DecidableEq, Repr

/-- Codes that report no failure are named one by one. -/
def errorCodeOutcome (code : UInt32) : ErrorCodeOutcome :=
  if code ∈ [0x00000000, 0x00000001] then .success
  else if code ∈ [0x00240001, 0x00240002, 0x00240006, 0x00240008] then .success
  else if code ∈ [0x00240005, 0x80070BC2, 3010] then .successRequiresAction
  else if code = 1641 then .success
  else if code = 0x87D1076C then .success
  else .failure

structure ErrorCodeSpan where
  start : Nat
  stop : Nat
  codeHex : Text
  codeDecimal : Text
  description : Text
  category : Text
  outcome : ErrorCodeOutcome
  deriving DecidableEq, Repr

structure ErrorCodeMention where
  start : Nat
  stop : Nat
  codeHex : Text
  codeDecimal : Text
  description : Text
  category : Text
  outcome : Option ErrorCodeOutcome
  known : Bool
  deriving DecidableEq, Repr

/-! ## The scan -/

def hexCode : List (Char → Bool) :=
  (fun c => c == '0') :: (fun c => c == 'x' || c == 'X') :: List.replicate 8 isAsciiHexdigit

def hexCodeRe : Regex := Regex.chain (hexCode.map .char)

/-- Byte range and value of a code. -/
structure CodeMention where
  start : Nat
  stop : Nat
  codeVal : UInt32
  deriving DecidableEq, Repr

/-- A match that is not followed by another digit. -/
def codeMention (message : Text) (m : Regex.Place) : Option CodeMention :=
  if (dropBytes m.stop message).head?.any isAsciiHexdigit then none
  else
    let hexStr := sliceBytes m.start m.stop message
    (parseUnsigned 16 u32Max (dropBytes 2 hexStr)).map fun codeVal =>
      { start := m.start, stop := m.stop, codeVal := UInt32.ofNat codeVal }

def codeMentions (message : Text) : List CodeMention :=
  -- most messages have no prefix, and are not searched
  if !contains message ['0', 'x'] && !contains message ['0', 'X'] then []
  else (hexCodeRe.findIter message).filterMap (codeMention message)

/-- Offsets in UTF-16 units; the code itself is ASCII. -/
def utf16Offsets (message : Text) (start stop : Nat) : Nat × Nat :=
  let charStart := unitCount (takeBytes start message)
  (charStart, charStart + (stop - start))

def spanOf (message : Text) (m : CodeMention) (ec : ErrorCode) : ErrorCodeSpan :=
  let offsets := utf16Offsets message m.start m.stop
  { start       := offsets.1
    stop        := offsets.2
    codeHex     := hexForm ec.code
    codeDecimal := decimalForm ec.code
    description := ec.description
    category    := ec.category.label
    outcome     := errorCodeOutcome ec.code }

def detectErrorCodeSpans (errorCodes : List ErrorCode) (message : Text) : List ErrorCodeSpan :=
  (codeMentions message).filterMap fun m =>
    (findErrorCode errorCodes m.codeVal).map (spanOf message m)

def mentionOf (errorCodes : List ErrorCode) (start stop : Nat) (codeVal : UInt32) :
    ErrorCodeMention :=
  match findErrorCode errorCodes codeVal with
  | some ec =>
    { start       := start
      stop        := stop
      codeHex     := hexForm codeVal
      codeDecimal := decimalForm codeVal
      description := ec.description
      category    := ec.category.label
      outcome     := some (errorCodeOutcome ec.code)
      known       := true }
  | none =>
    { start       := start
      stop        := stop
      codeHex     := hexForm codeVal
      codeDecimal := decimalForm codeVal
      description := []
      category    := []
      outcome     := none
      known       := false }

/-- Each gap is counted once: the last code ended at these offsets. -/
def mentionsFrom (errorCodes : List ErrorCode) (message : Text) :
    Nat → Nat → List CodeMention → List ErrorCodeMention
  | _, _, [] => []
  | byteEnd, utf16End, m :: rest =>
    let charStart := utf16End + unitCount (sliceBytes byteEnd m.start message)
    let charEnd := charStart + (m.stop - m.start)
    mentionOf errorCodes charStart charEnd m.codeVal ::
      mentionsFrom errorCodes message m.stop charEnd rest

def detectErrorCodeMentions (errorCodes : List ErrorCode) (message : Text) :
    List ErrorCodeMention :=
  mentionsFrom errorCodes message 0 0 (codeMentions message)

/-! ## What a code is -/

def IsCode (literal : Text) : Prop :=
  ∃ x digits, literal = '0' :: x :: digits ∧ (x = 'x' ∨ x = 'X') ∧ digits.length = 8 ∧
    digits.all isAsciiHexdigit = true

def Ends (after : Text) : Prop := after.head?.any isAsciiHexdigit = false

def codeValue (literal : Text) : UInt32 :=
  UInt32.ofNat ((parseUnsigned 16 u32Max (literal.drop 2)).getD 0)

theorem fits_hexCode_iff (s : Text) : Regex.Fits hexCode s ↔ IsCode s := by
  constructor
  · intro h
    rcases s with _ | ⟨z, _ | ⟨x, digits⟩⟩
    · cases h
    · cases h with
      | cons _ h => cases h
    · rw [hexCode, Regex.Fits, List.forall₂_cons, List.forall₂_cons] at h
      obtain ⟨hz, hx, hdigits⟩ := h
      obtain ⟨hlen, hall⟩ := Regex.fits_replicate.mp hdigits
      rw [Bool.or_eq_true, beq_iff_eq, beq_iff_eq] at hx
      rw [beq_iff_eq] at hz
      rw [hz]
      exact ⟨x, digits, rfl, hx, hlen, hall⟩
  · rintro ⟨x, digits, rfl, hx, hlen, hall⟩
    rw [hexCode, Regex.Fits, List.forall₂_cons, List.forall₂_cons]
    refine ⟨rfl, ?_, Regex.fits_replicate.mpr ⟨hlen, hall⟩⟩
    rwa [Bool.or_eq_true, beq_iff_eq, beq_iff_eq]

theorem toNat_of_isAsciiHexdigit {c : Char} (h : isAsciiHexdigit c = true) : c.toNat < 128 := by
  rw [isAsciiHexdigit, digit] at h
  by_contra hge
  rw [if_neg (by omega), if_neg (by omega), if_neg (by omega)] at h
  cases h

namespace IsCode

variable {literal : Text}

theorem ascii (h : IsCode literal) : ∀ c ∈ literal, c.toNat < 128 := by
  obtain ⟨x, digits, rfl, hx, -, hall⟩ := h
  intro c hc
  rw [List.mem_cons, List.mem_cons] at hc
  rcases hc with rfl | rfl | hc
  · decide
  · rcases hx with rfl | rfl
    · decide
    · decide
  · exact toNat_of_isAsciiHexdigit (List.all_eq_true.mp hall c hc)

theorem length_eq (h : IsCode literal) : literal.length = 10 := by
  obtain ⟨x, digits, rfl, -, hlen, -⟩ := h
  rw [List.length_cons, List.length_cons, hlen]

theorem unitCount_eq (h : IsCode literal) : unitCount literal = 10 := by
  rw [unitCount_of_ascii h.ascii, h.length_eq]

theorem byteLen_eq (h : IsCode literal) : byteLen literal = 10 := by
  rw [byteLen_eq_length fun c hc => utf8Size_of_lt (h.ascii c hc), h.length_eq]

theorem parse_drop (h : IsCode literal) :
    (parseUnsigned 16 u32Max (literal.drop 2)).map UInt32.ofNat = some (codeValue literal) := by
  obtain ⟨x, digits, rfl, -, hlen, hall⟩ := h
  have hne : digits ≠ [] := List.ne_nil_of_length_pos (by omega)
  have hplus : '+' ∉ digits := by
    intro hmem
    have hdigit := List.all_eq_true.mp hall '+' hmem
    exact absurd hdigit (by decide)
  have hbound : (0 + 1) * 16 ^ digits.length ≤ u32Max + 1 := by
    rw [hlen]
    decide
  obtain ⟨n, hn⟩ := digitsFrom_of_digits (fun c hc => List.all_eq_true.mp hall c hc) hbound
  rw [codeValue, List.drop_succ_cons, List.drop_succ_cons, List.drop_zero,
    parseUnsigned_of_not_mem hne hplus, hn, Option.getD_some, Option.map_some]

theorem tryParse (h : IsCode literal) : tryParseErrorCode literal = some (codeValue literal) := by
  have hparse := h.parse_drop
  obtain ⟨x, digits, rfl, hx, -, -⟩ := h
  have hpre : ("0x".toList.isPrefixOf ('0' :: x :: digits) ||
      "0X".toList.isPrefixOf ('0' :: x :: digits)) = true := by
    rcases hx with rfl | rfl
    · rfl
    · rfl
  rw [tryParseErrorCode, if_pos hpre, hparse]

theorem dropBytes_two (h : IsCode literal) : dropBytes 2 literal = literal.drop 2 := by
  obtain ⟨x, digits, rfl, hx, -, -⟩ := h
  have htwo : byteLen ['0', x] = 2 := by
    rcases hx with rfl | rfl
    · rfl
    · rfl
  have hdrop := dropBytes_byteLen ['0', x] digits
  rw [htwo] at hdrop
  exact hdrop

end IsCode

/-! ## The codes that are scanned -/

def scan (message : Text) : List Regex.Place :=
  (hexCodeRe.findIter message).filter fun p => !p.after.head?.any isAsciiHexdigit

theorem isCode_of_prefixes {s : Text} {m : Regex.Match} (h : m ∈ hexCodeRe.prefixes false s) :
    IsCode m.taken := by
  rw [hexCodeRe, Regex.prefixes_chain_char] at h
  split_ifs at h with hfits
  · rw [List.mem_singleton.mp h]
    exact (fits_hexCode_iff _).mp hfits
  · cases h

theorem prefixes_of_isCode {literal : Text} (h : IsCode literal) (after : Text) :
    hexCodeRe.prefixes false (literal ++ after) ≠ [] := by
  have hlen : hexCode.length = literal.length := by
    rw [h.length_eq]
    rfl
  rw [hexCodeRe, Regex.prefixes_chain_char, hlen, List.take_left,
    if_pos ((fits_hexCode_iff _).mpr h)]
  exact List.cons_ne_nil _ _

theorem isCode_of_mem_findIter {message : Text} {p : Regex.Place}
    (hp : p ∈ hexCodeRe.findIter message) :
    p.before ++ p.taken ++ p.after = message ∧ IsCode p.taken := by
  obtain ⟨htext, m, hm, htaken⟩ := Regex.findIter_text hp
  refine ⟨htext, ?_⟩
  rw [← htaken]
  exact isCode_of_prefixes (List.mem_of_head? hm)

theorem isCode_of_mem_scan {message : Text} {p : Regex.Place} (hp : p ∈ scan message) :
    p.before ++ p.taken ++ p.after = message ∧ IsCode p.taken ∧ Ends p.after := by
  obtain ⟨hfind, hends⟩ := List.mem_filter.mp hp
  obtain ⟨htext, hcode⟩ := isCode_of_mem_findIter hfind
  refine ⟨htext, hcode, ?_⟩
  rwa [Bool.not_eq_true'] at hends

theorem scan_pairwise (message : Text) :
    (scan message).Pairwise fun p q => p.before ++ p.taken <+: q.before :=
  (Regex.findIter_pairwise hexCodeRe message).filter _

theorem codeMention_eq {message : Text} {p : Regex.Place}
    (htext : p.before ++ p.taken ++ p.after = message) (hcode : IsCode p.taken) :
    codeMention message p =
      if p.after.head?.any isAsciiHexdigit then none
      else some { start := p.start, stop := p.stop, codeVal := codeValue p.taken } := by
  have hstop : p.stop = byteLen (p.before ++ p.taken) := (byteLen_append _ _).symm
  have hafter : dropBytes p.stop message = p.after := by
    rw [← htext, hstop, dropBytes_byteLen]
  have hslice : sliceBytes p.start p.stop message = p.taken := by
    rw [← htext, hstop]
    exact sliceBytes_byteLen _ _ _
  rw [codeMention, hafter, hslice]
  by_cases hdigit : p.after.head?.any isAsciiHexdigit = true
  · rw [if_pos hdigit, if_pos hdigit]
  · obtain ⟨n, hn, hvalue⟩ := Option.map_eq_some_iff.mp hcode.parse_drop
    rw [if_neg hdigit, if_neg hdigit]
    dsimp only
    rw [hcode.dropBytes_two, hn, Option.map_some, hvalue]

theorem scan_of_not_contains {message : Text}
    (h : (!contains message ['0', 'x'] && !contains message ['0', 'X']) = true) :
    scan message = [] := by
  rw [Bool.and_eq_true, Bool.not_eq_true', Bool.not_eq_true'] at h
  refine List.eq_nil_iff_forall_not_mem.mpr fun p hp => ?_
  obtain ⟨htext, ⟨x, digits, hliteral, hx, -, -⟩, -⟩ := isCode_of_mem_scan hp
  have hcontains : contains message ['0', x] = true := by
    rw [contains, List.any_eq_true]
    refine ⟨p.taken ++ p.after, ?_, ?_⟩
    · rw [List.mem_tails, ← htext, List.append_assoc]
      exact List.suffix_append _ _
    · rw [List.isPrefixOf_iff_prefix, hliteral]
      exact ⟨digits ++ p.after, rfl⟩
  rcases hx with rfl | rfl
  · rw [h.1] at hcontains
    cases hcontains
  · rw [h.2] at hcontains
    cases hcontains

def mentionAt (p : Regex.Place) : CodeMention :=
  { start := p.start, stop := p.stop, codeVal := codeValue p.taken }

theorem codeMentions_eq (message : Text) :
    codeMentions message = (scan message).map mentionAt := by
  rw [codeMentions]
  split_ifs with hnone
  · rw [scan_of_not_contains hnone]
    rfl
  · have hall : ∀ p ∈ hexCodeRe.findIter message, codeMention message p =
        if p.after.head?.any isAsciiHexdigit then none else some (mentionAt p) := by
      intro p hp
      obtain ⟨htext, hcode⟩ := isCode_of_mem_findIter hp
      exact codeMention_eq htext hcode
    rw [scan]
    generalize hexCodeRe.findIter message = found at hall ⊢
    induction found with
    | nil => rfl
    | cons p ps ih =>
      have hrest := ih fun q hq => hall q (List.mem_cons_of_mem p hq)
      rw [List.filterMap_cons, hall p List.mem_cons_self, List.filter_cons]
      cases p.after.head?.any isAsciiHexdigit with
      | true => exact hrest
      | false =>
        show mentionAt p :: ps.filterMap (codeMention message) = mentionAt p :: List.map mentionAt _
        rw [hrest]

/-! ## Offsets -/

def reported (errorCodes : List ErrorCode) (p : Regex.Place) : ErrorCodeMention :=
  mentionOf errorCodes (unitCount p.before) (unitCount (p.before ++ p.taken)) (codeValue p.taken)

theorem mentionsFrom_eq (errorCodes : List ErrorCode) {message : Text} {ps : List Regex.Place}
    (hps : ∀ p ∈ ps, p.before ++ p.taken ++ p.after = message ∧ IsCode p.taken)
    (hpairwise : ps.Pairwise fun p q => p.before ++ p.taken <+: q.before) (seen : Text)
    (hseen : ∀ p ∈ ps, seen <+: p.before) :
    mentionsFrom errorCodes message (byteLen seen) (unitCount seen) (ps.map mentionAt) =
      ps.map (reported errorCodes) := by
  induction ps generalizing seen with
  | nil => rfl
  | cons p ps ih =>
    obtain ⟨hfirst, hrest⟩ := List.pairwise_cons.mp hpairwise
    obtain ⟨htext, hcode⟩ := hps p List.mem_cons_self
    obtain ⟨gap, hgap⟩ := hseen p List.mem_cons_self
    have hslice : sliceBytes (byteLen seen) p.start message = gap := by
      rw [Regex.Place.start, ← htext, List.append_assoc, ← hgap]
      exact sliceBytes_byteLen _ _ _
    have hstop : p.stop = byteLen (p.before ++ p.taken) := (byteLen_append _ _).symm
    have hstart : unitCount seen + unitCount gap = unitCount p.before := by
      rw [← hgap, unitCount_append]
    have hend : unitCount p.before + (p.stop - p.start) = unitCount (p.before ++ p.taken) := by
      rw [Regex.Place.stop, Regex.Place.start, Nat.add_sub_cancel_left, unitCount_append,
        hcode.byteLen_eq, hcode.unitCount_eq]
    have hnext := ih (fun q hq => hps q (List.mem_cons_of_mem p hq)) hrest
      (p.before ++ p.taken) hfirst
    rw [List.map_cons, List.map_cons, mentionsFrom]
    show mentionOf errorCodes
        (unitCount seen + unitCount (sliceBytes (byteLen seen) p.start message))
        (unitCount seen + unitCount (sliceBytes (byteLen seen) p.start message) +
          (p.stop - p.start)) (codeValue p.taken) ::
      mentionsFrom errorCodes message p.stop
        (unitCount seen + unitCount (sliceBytes (byteLen seen) p.start message) +
          (p.stop - p.start)) (ps.map mentionAt) = _
    rw [hslice, hstart, hend, hstop, hnext, reported]

theorem detectErrorCodeMentions_eq (errorCodes : List ErrorCode) (message : Text) :
    detectErrorCodeMentions errorCodes message = (scan message).map (reported errorCodes) := by
  have hps : ∀ p ∈ scan message, p.before ++ p.taken ++ p.after = message ∧ IsCode p.taken := by
    intro p hp
    have hmem := isCode_of_mem_scan hp
    exact ⟨hmem.1, hmem.2.1⟩
  rw [detectErrorCodeMentions, codeMentions_eq]
  exact mentionsFrom_eq errorCodes hps (scan_pairwise message) [] fun p _ => List.nil_prefix

theorem utf16Offsets_eq {message : Text} {p : Regex.Place} (hp : p ∈ scan message) :
    utf16Offsets message p.start p.stop =
      (unitCount p.before, unitCount (p.before ++ p.taken)) := by
  obtain ⟨htext, hcode, -⟩ := isCode_of_mem_scan hp
  have htake : takeBytes p.start message = p.before := by
    rw [← htext, List.append_assoc]
    exact takeBytes_byteLen _ _
  rw [utf16Offsets, htake, Regex.Place.stop, Regex.Place.start, Nat.add_sub_cancel_left,
    unitCount_append, hcode.byteLen_eq, hcode.unitCount_eq]

/-! ## The two scanners -/

/-- The span of a code the database knows, beside its mention. -/
def Explains (errorCodes : List ErrorCode) (span : ErrorCodeSpan) (m : ErrorCodeMention) : Prop :=
  span.start = m.start ∧ span.stop = m.stop ∧ span.description = m.description ∧
    span.category = m.category ∧ m.outcome = some span.outcome ∧
    ∃ codeVal ec, m.codeHex = hexForm codeVal ∧ findErrorCode errorCodes codeVal = some ec ∧
      span.codeHex = hexForm ec.code ∧ span.codeDecimal = decimalForm ec.code

theorem spans_explain_mentions (errorCodes : List ErrorCode) (message : Text) :
    List.Forall₂ (Explains errorCodes) (detectErrorCodeSpans errorCodes message)
      ((detectErrorCodeMentions errorCodes message).filter ErrorCodeMention.known) := by
  rw [detectErrorCodeMentions_eq, detectErrorCodeSpans, codeMentions_eq, List.filterMap_map]
  have hoffsets := fun p (hp : p ∈ scan message) => utf16Offsets_eq hp
  generalize scan message = places at hoffsets ⊢
  induction places with
  | nil => exact List.Forall₂.nil
  | cons p ps ih =>
    have hrest := ih fun q hq => hoffsets q (List.mem_cons_of_mem p hq)
    have hp := hoffsets p List.mem_cons_self
    rw [List.filterMap_cons, List.map_cons, Function.comp_apply,
      show (mentionAt p).codeVal = codeValue p.taken from rfl]
    cases hfind : findErrorCode errorCodes (codeValue p.taken) with
    | none =>
      have hknown : (reported errorCodes p).known = false := by
        rw [reported, mentionOf, hfind]
      rw [List.filter_cons_of_neg (by rw [hknown]; exact Bool.false_ne_true)]
      exact hrest
    | some ec =>
      have hreported : reported errorCodes p =
          { start       := unitCount p.before
            stop        := unitCount (p.before ++ p.taken)
            codeHex     := hexForm (codeValue p.taken)
            codeDecimal := decimalForm (codeValue p.taken)
            description := ec.description
            category    := ec.category.label
            outcome     := some (errorCodeOutcome ec.code)
            known       := true } := by
        rw [reported, mentionOf, hfind]
      rw [hreported, List.filter_cons_of_pos rfl]
      refine List.Forall₂.cons ?_ hrest
      refine ⟨congrArg Prod.fst hp, congrArg Prod.snd hp, rfl, rfl, rfl, ?_⟩
      exact ⟨codeValue p.taken, ec, rfl, hfind, rfl, rfl⟩

theorem mention_of_code (errorCodes : List ErrorCode) {message : Text} {m : ErrorCodeMention}
    (hm : m ∈ detectErrorCodeMentions errorCodes message) :
    ∃ before literal after codeVal, message = before ++ literal ++ after ∧ IsCode literal ∧
      Ends after ∧ tryParseErrorCode literal = some codeVal ∧ m.start = unitCount before ∧
      m.stop = unitCount (before ++ literal) ∧ m.codeHex = hexForm codeVal ∧
      m.codeDecimal = decimalForm codeVal ∧
      m.known = (findErrorCode errorCodes codeVal).isSome ∧
      ((encodeUtf16 message).drop m.start).take (m.stop - m.start) = encodeUtf16 literal := by
  rw [detectErrorCodeMentions_eq] at hm
  obtain ⟨p, hp, rfl⟩ := List.mem_map.mp hm
  obtain ⟨htext, hcode, hends⟩ := isCode_of_mem_scan hp
  have hfields : ∀ start stop codeVal,
      (mentionOf errorCodes start stop codeVal).start = start ∧
      (mentionOf errorCodes start stop codeVal).stop = stop ∧
      (mentionOf errorCodes start stop codeVal).codeHex = hexForm codeVal ∧
      (mentionOf errorCodes start stop codeVal).codeDecimal = decimalForm codeVal ∧
      (mentionOf errorCodes start stop codeVal).known =
        (findErrorCode errorCodes codeVal).isSome := by
    intro start stop codeVal
    rw [mentionOf]
    cases findErrorCode errorCodes codeVal with
    | none => exact ⟨rfl, rfl, rfl, rfl, rfl⟩
    | some ec => exact ⟨rfl, rfl, rfl, rfl, rfl⟩
  obtain ⟨hstart, hstop, hhex, hdecimal, hknown⟩ :=
    hfields (unitCount p.before) (unitCount (p.before ++ p.taken)) (codeValue p.taken)
  refine ⟨p.before, p.taken, p.after, codeValue p.taken, htext.symm, hcode, hends, hcode.tryParse,
    hstart, hstop, hhex, hdecimal, hknown, ?_⟩
  rw [reported, hstart, hstop, ← htext]
  exact encodeUtf16_slice p.before p.taken p.after

@[simp] theorem reported_start (errorCodes : List ErrorCode) (p : Regex.Place) :
    (reported errorCodes p).start = unitCount p.before := by
  rw [reported, mentionOf]
  cases findErrorCode errorCodes (codeValue p.taken) <;> rfl

@[simp] theorem reported_stop (errorCodes : List ErrorCode) (p : Regex.Place) :
    (reported errorCodes p).stop = unitCount (p.before ++ p.taken) := by
  rw [reported, mentionOf]
  cases findErrorCode errorCodes (codeValue p.taken) <;> rfl

theorem mentions_pairwise (errorCodes : List ErrorCode) (message : Text) :
    (detectErrorCodeMentions errorCodes message).Pairwise fun a b => a.stop ≤ b.start := by
  rw [detectErrorCodeMentions_eq, List.pairwise_map]
  refine (scan_pairwise message).imp ?_
  rintro p q ⟨gap, hgap⟩
  rw [reported_stop, reported_start, ← hgap, unitCount_append _ gap]
  exact Nat.le_add_right _ _

theorem not_isAsciiHexdigit_x {x : Char} (h : x = 'x' ∨ x = 'X') : isAsciiHexdigit x = false := by
  rcases h with rfl | rfl
  · decide
  · decide

/-- The letter of a code that begins inside another is no digit, so the other one
ends where it is. -/
theorem ends_of_overlap {taken after d literal rest : Text} (htaken : IsCode taken)
    (hliteral : IsCode literal) (htext : taken ++ after = d ++ (literal ++ rest)) (hd : d ≠ [])
    (hlt : d.length < 10) : Ends after := by
  obtain ⟨y, digits, rfl, -, hlen, hall⟩ := htaken
  obtain ⟨x, others, rfl, hx, -, -⟩ := hliteral
  have hpos : 0 < d.length := List.length_pos_iff.mpr hd
  cases after with
  | nil => rfl
  | cons h after =>
    rw [Ends, List.head?_cons, Option.any_some, Bool.eq_false_iff]
    intro hdigit
    have hx' : x ∈ digits ++ [h] := by
      have hright : (d ++ (('0' :: x :: others) ++ rest))[d.length + 1]? = some x := by
        rw [List.getElem?_append_right (by omega), Nat.add_sub_cancel_left]
        rfl
      have hsplit : ('0' :: y :: digits) ++ h :: after =
          ['0', y] ++ ((digits ++ [h]) ++ after) := by
        simp only [List.cons_append, List.nil_append, List.append_assoc]
      rw [← htext, hsplit, List.getElem?_append_right (by simp; omega),
        List.getElem?_append_left (by simp; omega)] at hright
      exact List.mem_of_getElem? hright
    have hhex : isAsciiHexdigit x = true := by
      rcases List.mem_append.mp hx' with hmem | hmem
      · exact List.all_eq_true.mp hall x hmem
      · rw [List.mem_singleton.mp hmem]
        exact hdigit
    rw [not_isAsciiHexdigit_x hx] at hhex
    cases hhex

/-- Every code of the message is mentioned, or one before it goes on over its
beginning. -/
theorem code_is_mentioned (errorCodes : List ErrorCode) {before literal after : Text}
    (hliteral : IsCode literal) (hends : Ends after) :
    (∃ m ∈ detectErrorCodeMentions errorCodes (before ++ literal ++ after),
      m.start = unitCount before ∧ m.stop = unitCount (before ++ literal)) ∨
    ∃ m ∈ detectErrorCodeMentions errorCodes (before ++ literal ++ after),
      m.start < unitCount before ∧ unitCount before < m.stop := by
  have hmatch := prefixes_of_isCode hliteral after
  have hcomplete : ∃ p ∈ hexCodeRe.findIter (before ++ (literal ++ after)), p.before <+: before ∧
      before.length < (p.before ++ p.taken).length :=
    Regex.findIter_complete (Regex.unanchored_chain_char hexCode)
      (Regex.taking_chain_char (List.cons_ne_nil _ _)) hmatch
  obtain ⟨p, hp, ⟨d, hd⟩, hlt⟩ := hcomplete
  rw [← List.append_assoc] at hp
  obtain ⟨htext, hcode⟩ := isCode_of_mem_findIter hp
  rw [← hd, List.append_assoc, List.append_assoc, List.append_assoc, List.append_cancel_left_eq]
    at htext
  rw [List.length_append, hcode.length_eq, ← hd, List.length_append] at hlt
  have hscan : Ends p.after →
      reported errorCodes p ∈ detectErrorCodeMentions errorCodes (before ++ literal ++ after) := by
    intro hafter
    rw [detectErrorCodeMentions_eq]
    refine List.mem_map_of_mem (List.mem_filter.mpr ⟨hp, ?_⟩)
    rwa [Bool.not_eq_true']
  by_cases hempty : d = []
  · -- the match is the code
    left
    rw [hempty, List.nil_append] at htext
    rw [hempty, List.append_nil] at hd
    obtain ⟨htaken, hafter⟩ := List.append_inj htext (by rw [hcode.length_eq, hliteral.length_eq])
    rw [← hafter] at hends
    refine ⟨reported errorCodes p, hscan hends, ?_, ?_⟩
    · rw [reported_start, hd]
    · rw [reported_stop, hd, htaken]
  · right
    have hafter := ends_of_overlap hcode hliteral htext hempty (by omega)
    -- what the match takes before the code is ASCII
    have htake : d <+: p.taken :=
      List.prefix_of_prefix_length_le ⟨literal ++ after, htext.symm⟩ (List.prefix_append _ _)
        (by rw [hcode.length_eq]; omega)
    have hcount : unitCount d = d.length :=
      unitCount_of_ascii fun c hc => hcode.ascii c (htake.subset hc)
    have hpos : 0 < d.length := List.length_pos_iff.mpr hempty
    refine ⟨reported errorCodes p, hscan hafter, ?_, ?_⟩
    · rw [reported_start, ← hd, unitCount_append, hcount]
      omega
    · rw [reported_stop, ← hd, unitCount_append, unitCount_append, hcount, hcode.unitCount_eq]
      omega

/-- The scanners agree, and what they report are the codes of the message. -/
theorem scanners_exact (errorCodes : List ErrorCode) (message : Text) :
    List.Forall₂ (Explains errorCodes) (detectErrorCodeSpans errorCodes message)
      ((detectErrorCodeMentions errorCodes message).filter ErrorCodeMention.known) ∧
    (∀ m ∈ detectErrorCodeMentions errorCodes message,
      ∃ before literal after codeVal, message = before ++ literal ++ after ∧ IsCode literal ∧
        Ends after ∧ tryParseErrorCode literal = some codeVal ∧ m.start = unitCount before ∧
        m.stop = unitCount (before ++ literal) ∧ m.codeHex = hexForm codeVal ∧
        m.codeDecimal = decimalForm codeVal ∧
        m.known = (findErrorCode errorCodes codeVal).isSome ∧
        ((encodeUtf16 message).drop m.start).take (m.stop - m.start) = encodeUtf16 literal) ∧
    (detectErrorCodeMentions errorCodes message).Pairwise (fun a b => a.stop ≤ b.start) ∧
    ∀ before literal after, message = before ++ literal ++ after → IsCode literal → Ends after →
      (∃ m ∈ detectErrorCodeMentions errorCodes message,
        m.start = unitCount before ∧ m.stop = unitCount (before ++ literal)) ∨
      ∃ m ∈ detectErrorCodeMentions errorCodes message,
        m.start < unitCount before ∧ unitCount before < m.stop := by
  refine ⟨spans_explain_mentions errorCodes message, ?_, mentions_pairwise errorCodes message, ?_⟩
  · intro m hm
    exact mention_of_code errorCodes hm
  · intro before literal after htext hliteral hends
    rw [htext]
    exact code_is_mentioned errorCodes hliteral hends

/-- A code after a surrogate pair is mentioned. -/
theorem scanners_exact_pair :
    (∃ m ∈ detectErrorCodeMentions [accessDenied] ("😀".toList ++ "0x80070005".toList ++ ['.']),
      m.start = unitCount "😀".toList ∧
        m.stop = unitCount ("😀".toList ++ "0x80070005".toList)) ∨
    ∃ m ∈ detectErrorCodeMentions [accessDenied] ("😀".toList ++ "0x80070005".toList ++ ['.']),
      m.start < unitCount "😀".toList ∧ unitCount "😀".toList < m.stop :=
  (scanners_exact [accessDenied] ("😀".toList ++ "0x80070005".toList ++ ['.'])).2.2.2
    "😀".toList "0x80070005".toList ['.'] rfl
    ⟨'x', "80070005".toList, rfl, .inl rfl, rfl, by decide⟩ (by rw [Ends]; decide)

example :
    (detectErrorCodeMentions [accessDenied] "😀0x80070005".toList).map
        (fun m => (m.start, m.stop, m.known)) = [(2, 12, true)] ∧
    (detectErrorCodeMentions [accessDenied] "0x12345670x12345678".toList).map
        (fun m => (m.start, m.stop, m.known)) = [(0, 10, false)] := by
  decide +kernel

end ErrorDb
end CmTrace
