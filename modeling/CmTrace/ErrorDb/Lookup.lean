import CmTrace.Parser.Host
import CmTrace.Text.Hex
import CmTrace.Text.Json

/-!
# Looking up an error code

A code is typed with a prefix, as bare hexadecimal digits or as a decimal number,
and found under its own value or under the other of its Win32 and HRESULT forms.
What a lookup prints can be looked up again.
-/

namespace CmTrace
namespace ErrorDb

open Text
open CmTrace.Parser (parseU32 parseI32)

inductive ErrorCategory where
  | windows | windowsUpdate | bits | configMgr | intune | deliveryOpt | appInstall | certificate
  | network | security | registry | fileSystem | msi | psadt
  deriving DecidableEq, Repr

def ErrorCategory.label : ErrorCategory → Text
  | .windows       => "Windows".toList
  | .windowsUpdate => "Windows Update".toList
  | .bits          => "BITS".toList
  | .configMgr     => "ConfigMgr".toList
  | .intune        => "Intune".toList
  | .deliveryOpt   => "Delivery Optimization".toList
  | .appInstall    => "App Install".toList
  | .certificate   => "Certificate".toList
  | .network       => "Network".toList
  | .security      => "Security".toList
  | .registry      => "Registry".toList
  | .fileSystem    => "File System".toList
  | .msi           => "Windows Installer (MSI)".toList
  | .psadt         => "PSADT".toList

structure ErrorCode where
  code : UInt32
  description : Text
  category : ErrorCategory
  deriving DecidableEq, Repr

/-- Of two entries with one code the map keeps the later. -/
def codeMap (errorCodes : List ErrorCode) (code : UInt32) : Option ErrorCode :=
  errorCodes.reverse.find? fun ec => ec.code == code

/-- The code itself, the Win32 code inside an HRESULT, or the HRESULT around a
small code. -/
def findErrorCode (errorCodes : List ErrorCode) (code : UInt32) : Option ErrorCode :=
  (codeMap errorCodes code).or
    ((if code &&& 0xFFFF0000 = 0x80070000 then codeMap errorCodes (code &&& 0x0000FFFF)
      else none).or
      (if code ≤ 0xFFFF then codeMap errorCodes (0x80070000 ||| code) else none))

/-! ## Printed forms -/

def asI32 (code : UInt32) : Int :=
  if code.toNat < 2 ^ 31 then code.toNat else code.toNat - 2 ^ 32

def hexForm (code : UInt32) : Text := '0' :: 'x' :: hexPadded 8 code.toNat

def decimalForm (code : UInt32) : Text := jsonInt (asI32 code)

/-! ## Lookup -/

def isAsciiHexdigit (c : Char) : Bool := (digit 16 c).isSome

def tryParseErrorCode (input : Text) : Option UInt32 :=
  if "0x".toList.isPrefixOf input || "0X".toList.isPrefixOf input then
    (parseUnsigned 16 u32Max (input.drop 2)).map UInt32.ofNat
  else if input.head? = some '-' then
    (parseI32 input).map UInt32.ofInt
  else match parseUnsigned 16 u32Max input with
    | some hexVal =>
      -- six digits or more are taken for hexadecimal ones
      if 6 ≤ byteLen input ∧ input.all isAsciiHexdigit = true then some (UInt32.ofNat hexVal)
      else ((parseU32 input).or (some hexVal)).map UInt32.ofNat
    | none => (parseU32 input).map UInt32.ofNat

structure ErrorLookupResult where
  codeHex : Text
  codeDecimal : Text
  description : Text
  category : Text
  found : Bool
  deriving DecidableEq, Repr

def lookupCode (errorCodes : List ErrorCode) (c : UInt32) : ErrorLookupResult :=
  match findErrorCode errorCodes c with
  | some ec =>
    { codeHex     := hexForm ec.code
      codeDecimal := decimalForm ec.code
      description := ec.description
      category    := ec.category.label
      found       := true }
  | none =>
    { codeHex     := hexForm c
      codeDecimal := decimalForm c
      description := "Unknown error code".toList
      category    := []
      found       := false }

def lookupErrorCode (errorCodes : List ErrorCode) (input : Text) : ErrorLookupResult :=
  match tryParseErrorCode (trim input) with
  | some c => lookupCode errorCodes c
  | none =>
    { codeHex     := []
      codeDecimal := []
      description := "Invalid error code format".toList
      category    := []
      found       := false }

/-- Codes whose decimal form has six to eight digits and no sign. -/
def BareHex (code : UInt32) : Prop := 100000 ≤ code.toNat ∧ code.toNat < 100000000

instance (code : UInt32) : Decidable (BareHex code) :=
  inferInstanceAs (Decidable (_ ∧ _))

/-! ## The map -/

theorem code_of_codeMap {errorCodes : List ErrorCode} {code : UInt32} {ec : ErrorCode}
    (h : codeMap errorCodes code = some ec) : ec.code = code := by
  have hcode := List.find?_some h
  exact eq_of_beq hcode

theorem findErrorCode_direct {errorCodes : List ErrorCode} {code : UInt32} {ec : ErrorCode}
    (h : codeMap errorCodes code = some ec) : findErrorCode errorCodes code = some ec := by
  rw [findErrorCode, h, Option.some_or]

theorem findErrorCode_spec {errorCodes : List ErrorCode} {code : UInt32} {ec : ErrorCode}
    (h : findErrorCode errorCodes code = some ec) :
    codeMap errorCodes ec.code = some ec ∧
      (ec.code = code ∨ ec.code = code &&& 0x0000FFFF ∨
        code ≤ 0xFFFF ∧ ec.code = 0x80070000 ||| code) := by
  rw [findErrorCode, Option.or_eq_some_iff] at h
  rcases h with hdirect | ⟨-, h⟩
  · have hcode := code_of_codeMap hdirect
    rw [hcode]
    exact ⟨hdirect, Or.inl rfl⟩
  · rw [Option.or_eq_some_iff] at h
    rcases h with hlow | ⟨-, hhigh⟩
    · split_ifs at hlow
      have hcode := code_of_codeMap hlow
      rw [hcode]
      exact ⟨hlow, Or.inr (Or.inl rfl)⟩
    · split_ifs at hhigh with hsmall
      have hcode := code_of_codeMap hhigh
      rw [hcode]
      exact ⟨hhigh, Or.inr (Or.inr ⟨hsmall, rfl⟩)⟩

def shownCode (errorCodes : List ErrorCode) (c : UInt32) : UInt32 :=
  (findErrorCode errorCodes c).elim c ErrorCode.code

theorem lookupCode_codeHex (errorCodes : List ErrorCode) (c : UInt32) :
    (lookupCode errorCodes c).codeHex = hexForm (shownCode errorCodes c) := by
  rw [lookupCode, shownCode]
  cases findErrorCode errorCodes c with
  | none => rw [Option.elim_none]
  | some ec => rw [Option.elim_some]

theorem lookupCode_codeDecimal (errorCodes : List ErrorCode) (c : UInt32) :
    (lookupCode errorCodes c).codeDecimal = decimalForm (shownCode errorCodes c) := by
  rw [lookupCode, shownCode]
  cases findErrorCode errorCodes c with
  | none => rw [Option.elim_none]
  | some ec => rw [Option.elim_some]

theorem lookupCode_shownCode (errorCodes : List ErrorCode) (c : UInt32) :
    lookupCode errorCodes (shownCode errorCodes c) = lookupCode errorCodes c := by
  rw [shownCode]
  cases hfind : findErrorCode errorCodes c with
  | none => rfl
  | some ec =>
    have hagain : findErrorCode errorCodes ec.code = some ec :=
      findErrorCode_direct (findErrorCode_spec hfind).1
    rw [Option.elim_some, lookupCode, lookupCode, hagain, hfind]

/-! ## Printed forms are read -/

theorem trim_of_not_whitespace {s : Text} (h : ∀ c ∈ s, isWhitespace c = false) : trim s = s := by
  have hstart : trimStart s = s := by
    cases s with
    | nil => rfl
    | cons c rest =>
      rw [trimStart]
      exact List.dropWhile_cons_of_neg (Bool.eq_false_iff.mp (h c List.mem_cons_self))
  rw [trim, hstart, trimEnd, List.rdropWhile_eq_self_iff]
  intro hne
  exact Bool.eq_false_iff.mp (h _ (List.getLast_mem hne))

theorem hexUpper_plain : ∀ {d : Nat}, d < 16 →
    isWhitespace (hexUpper d) = false ∧ hexUpper d ≠ '+' := by
  decide

theorem trim_hexForm (c : UInt32) : trim (hexForm c) = hexForm c := by
  apply trim_of_not_whitespace
  intro ch hch
  rw [hexForm, List.mem_cons, List.mem_cons] at hch
  rcases hch with rfl | rfl | hdigit
  · decide
  · decide
  · obtain ⟨d, hd, rfl⟩ := mem_hexPadded hdigit
    exact (hexUpper_plain hd).1

theorem tryParse_hexForm (c : UInt32) : tryParseErrorCode (hexForm c) = some c := by
  have hlt : c.toNat < 16 ^ 8 := c.toNat_lt
  have hne : hexPadded 8 c.toNat ≠ [] := List.ne_nil_of_length_pos (by
    rw [length_hexPadded]
    decide)
  have hplus : '+' ∉ hexPadded 8 c.toNat := by
    intro hmem
    obtain ⟨d, hd, heq⟩ := mem_hexPadded hmem
    exact (hexUpper_plain hd).2 heq.symm
  have hdigits : digitsFrom 16 u32Max 0 (hexPadded 8 c.toNat) = some c.toNat :=
    digitsFrom_hexPadded hlt (Nat.le_of_lt_succ hlt)
  have hpre : ("0x".toList.isPrefixOf (hexForm c) || "0X".toList.isPrefixOf (hexForm c)) = true :=
    rfl
  rw [tryParseErrorCode, if_pos hpre, hexForm, List.drop_succ_cons, List.drop_succ_cons,
    List.drop_zero, parseUnsigned_of_not_mem hne hplus, hdigits, Option.map_some,
    UInt32.ofNat_toNat]

theorem decimalForm_of_lt {c : UInt32} (h : c.toNat < 2 ^ 31) :
    decimalForm c = decimal c.toNat := by
  have hvalue : asI32 c = Int.ofNat c.toNat := if_pos h
  rw [decimalForm, hvalue, jsonInt]

theorem decimalForm_of_le {c : UInt32} (h : 2 ^ 31 ≤ c.toNat) :
    decimalForm c = '-' :: decimal (2 ^ 32 - c.toNat) := by
  have hlt := c.toNat_lt
  have hvalue : asI32 c = Int.negSucc (2 ^ 32 - c.toNat - 1) := by
    rw [asI32, if_neg (Nat.not_lt.mpr h), Int.negSucc_eq]
    omega
  have hmagnitude : 2 ^ 32 - c.toNat - 1 + 1 = 2 ^ 32 - c.toNat := by omega
  rw [decimalForm, hvalue, jsonInt, hmagnitude]

theorem isDigit_of_mem_decimal {ch : Char} {n : Nat} (h : ch ∈ decimal n) : ch.isDigit = true :=
  Nat.isDigit_of_mem_toDigits (by omega) (by omega) h

theorem trim_decimalForm (c : UInt32) : trim (decimalForm c) = decimalForm c := by
  have hdigits : ∀ n, ∀ ch ∈ decimal n, isWhitespace ch = false := by
    intro n ch hch
    have hdigit := Char.isDigit_iff_toNat.mp (isDigit_of_mem_decimal hch)
    rw [isWhitespace, decide_eq_false_iff_not]
    have hzero : ('0' : Char).toNat = 48 := rfl
    have hnine : ('9' : Char).toNat = 57 := rfl
    omega
  apply trim_of_not_whitespace
  rcases Nat.lt_or_ge c.toNat (2 ^ 31) with hlt | hge
  · rw [decimalForm_of_lt hlt]
    exact hdigits c.toNat
  · rw [decimalForm_of_le hge]
    intro ch hch
    rcases List.mem_cons.mp hch with rfl | hch
    · decide
    · exact hdigits _ ch hch

theorem not_prefixed {s : Text} (hlower : 'x' ∉ s) (hupper : 'X' ∉ s) :
    ¬("0x".toList.isPrefixOf s || "0X".toList.isPrefixOf s) = true := by
  intro h
  rw [Bool.or_eq_true] at h
  rcases h with h | h
  · have hsub := (List.isPrefixOf_iff_prefix.mp h).subset
    exact hlower (hsub (by decide))
  · have hsub := (List.isPrefixOf_iff_prefix.mp h).subset
    exact hupper (hsub (by decide))

theorem not_prefixed_decimal (n : Nat) :
    ¬("0x".toList.isPrefixOf (decimal n) || "0X".toList.isPrefixOf (decimal n)) = true :=
  not_prefixed (not_mem_decimal (by decide) n) (not_mem_decimal (by decide) n)

theorem tryParse_negative {c : UInt32} (h : 2 ^ 31 ≤ c.toNat) :
    tryParseErrorCode ('-' :: decimal (2 ^ 32 - c.toNat)) = some c := by
  have hlt := c.toNat_lt
  have hplus : ¬(decimal (2 ^ 32 - c.toNat)).head? = some '+' := by
    intro hhead
    exact not_mem_decimal (by decide) _ (List.mem_of_mem_head? hhead)
  have hparse : parseUnsigned 10 (2 ^ 31) (decimal (2 ^ 32 - c.toNat)) = some (2 ^ 32 - c.toNat) :=
    parseUnsigned_decimal (by omega)
  have hwrap : UInt32.ofInt (-((2 ^ 32 - c.toNat : Nat) : Int)) = c := by
    apply UInt32.toNat_inj.mp
    rw [UInt32.ofInt, UInt32.toNat_ofNat']
    omega
  have hdigits : ∀ ch : Char, ch ≠ '-' → ch.isDigit = false →
      ch ∉ '-' :: decimal (2 ^ 32 - c.toNat) := by
    intro ch hminus hdigit hmem
    rcases List.mem_cons.mp hmem with heq | hmem
    · exact hminus heq
    · exact not_mem_decimal hdigit _ hmem
  have hpre := not_prefixed (hdigits 'x' (by decide) (by decide))
    (hdigits 'X' (by decide) (by decide))
  rw [tryParseErrorCode, if_neg hpre, if_pos List.head?_cons, parseI32,
    if_neg hplus, hparse]
  show some (UInt32.ofInt (-((2 ^ 32 - c.toNat : Nat) : Int))) = some c
  rw [hwrap]

theorem all_isAsciiHexdigit_decimal (n : Nat) : (decimal n).all isAsciiHexdigit = true := by
  rw [List.all_eq_true]
  intro ch hch
  have hdigit := Char.isDigit_iff_toNat.mp (isDigit_of_mem_decimal hch)
  have hzero : ('0' : Char).toNat = 48 := rfl
  have hnine : ('9' : Char).toNat = 57 := rfl
  rw [isAsciiHexdigit, digit, if_pos (by omega), Option.filter_some, if_pos (by
    rw [decide_eq_true_eq]
    omega)]
  rfl

/-- A decimal number is read as one except where its digits are taken for
hexadecimal ones. -/
theorem tryParse_decimal {c : UInt32} (h : c.toNat < 2 ^ 31) :
    tryParseErrorCode (decimal c.toNat) =
      some (if BareHex c then UInt32.ofNat (hexReading c.toNat) else c) := by
  have hminus : ¬(decimal c.toNat).head? = some '-' := by
    intro hhead
    exact not_mem_decimal (by decide) _ (List.mem_of_mem_head? hhead)
  have hplus : '+' ∉ decimal c.toNat := not_mem_decimal (by decide) _
  have hlimit : c.toNat ≤ u32Max := by
    show c.toNat ≤ 2 ^ 32 - 1
    omega
  have hdecimal : parseU32 (decimal c.toNat) = some c.toNat := parseUnsigned_decimal hlimit
  have hhex : parseUnsigned 16 u32Max (decimal c.toNat) =
      if hexReading c.toNat ≤ u32Max then some (hexReading c.toNat) else none := by
    rw [parseUnsigned_of_not_mem (decimal_ne_nil _) hplus, digitsFrom_sixteen_decimal]
  have hsix : 6 ≤ byteLen (decimal c.toNat) ↔ 10 ^ 5 ≤ c.toNat := by
    have hfive := digits_le_iff (n := c.toNat) (k := 5) (by omega)
    rw [byteLen_decimal]
    omega
  rw [tryParseErrorCode, if_neg (not_prefixed_decimal _), if_neg hminus, hhex, hdecimal]
  rcases Nat.lt_or_ge c.toNat (10 ^ 8) with hlt | hge
  · have hfits : hexReading c.toNat ≤ u32Max := by
      have hpow : hexReading c.toNat < 16 ^ 8 := hexReading_lt_pow hlt
      show hexReading c.toNat ≤ 2 ^ 32 - 1
      omega
    rw [if_pos hfits]
    by_cases hlong : 10 ^ 5 ≤ c.toNat
    · have hbare : BareHex c := ⟨hlong, hlt⟩
      rw [if_pos hbare]
      exact if_pos ⟨hsix.mpr hlong, all_isAsciiHexdigit_decimal _⟩
    · have hbare : ¬BareHex c := fun hb => hlong hb.1
      rw [if_neg hbare]
      dsimp only
      rw [if_neg fun hb => hlong (hsix.mp hb.1), Option.some_or, Option.map_some,
        UInt32.ofNat_toNat]
  · -- more than eight digits do not fit when they are read as hexadecimal ones
    have hpast : ¬hexReading c.toNat ≤ u32Max := by
      have hpow : 16 ^ 8 ≤ hexReading c.toNat := pow_le_hexReading hge
      show ¬hexReading c.toNat ≤ 2 ^ 32 - 1
      omega
    have hbare : ¬BareHex c := fun hb => Nat.not_lt.mpr hge hb.2
    rw [if_neg hpast, if_neg hbare]
    dsimp only
    rw [Option.map_some, UInt32.ofNat_toNat]

/-! ## What is printed is found again -/

theorem lookup_hexForm (errorCodes : List ErrorCode) (c : UInt32) :
    lookupErrorCode errorCodes (hexForm c) = lookupCode errorCodes c := by
  rw [lookupErrorCode, trim_hexForm, tryParse_hexForm]

theorem lookup_decimalForm (errorCodes : List ErrorCode) (c : UInt32) :
    lookupErrorCode errorCodes (decimalForm c) =
      lookupCode errorCodes (if BareHex c then UInt32.ofNat (hexReading c.toNat) else c) := by
  rw [lookupErrorCode, trim_decimalForm]
  rcases Nat.lt_or_ge c.toNat (2 ^ 31) with hlt | hge
  · rw [decimalForm_of_lt hlt, tryParse_decimal hlt]
  · have hbare : ¬BareHex c := fun hb => by
      have hsmall := hb.2
      omega
    rw [decimalForm_of_le hge, tryParse_negative hge, if_neg hbare]

theorem hexForm_injective : Function.Injective hexForm := by
  intro a b h
  have hparse := tryParse_hexForm a
  rw [h, tryParse_hexForm] at hparse
  exact (Option.some.inj hparse).symm

theorem shownCode_of_bareHex (errorCodes : List ErrorCode) {c : UInt32} (h : BareHex c) :
    shownCode errorCodes c = c := by
  rw [shownCode]
  cases hfind : findErrorCode errorCodes c with
  | none => rfl
  | some ec =>
    rw [findErrorCode, Option.or_eq_some_iff] at hfind
    rcases hfind with hdirect | ⟨-, hfind⟩
    · exact code_of_codeMap hdirect
    · have hlow := h.1
      have hhigh := h.2
      have hfacility : ¬c &&& 0xFFFF0000 = 0x80070000 := by
        intro heq
        have hle : (c &&& 0xFFFF0000).toNat ≤ c.toNat := by
          rw [UInt32.toNat_and]
          exact Nat.and_le_left
        rw [heq] at hle
        have hconst : (0x80070000 : UInt32).toNat = 2147942400 := rfl
        omega
      have hsmall : ¬c ≤ 0xFFFF := by
        rw [UInt32.le_iff_toNat_le]
        have hconst : (0xFFFF : UInt32).toNat = 65535 := rfl
        omega
      rw [if_neg hfacility, if_neg hsmall] at hfind
      cases hfind

theorem shownCode_hexReading_ne (errorCodes : List ErrorCode) {c : UInt32} (h : BareHex c) :
    shownCode errorCodes (UInt32.ofNat (hexReading c.toNat)) ≠ c := by
  have hlow := h.1
  have hhigh := h.2
  have hpow : 16 ^ 5 ≤ hexReading c.toNat := pow_le_hexReading hlow
  have hfits : hexReading c.toNat < 16 ^ 8 := hexReading_lt_pow hhigh
  have hgt : c.toNat < hexReading c.toNat := lt_hexReading (by omega)
  have hvalue : (UInt32.ofNat (hexReading c.toNat)).toNat = hexReading c.toNat := by
    rw [UInt32.toNat_ofNat']
    omega
  rw [shownCode]
  cases hfind : findErrorCode errorCodes (UInt32.ofNat (hexReading c.toNat)) with
  | none =>
    intro heq
    have hnat := congrArg UInt32.toNat heq
    rw [Option.elim_none, hvalue] at hnat
    omega
  | some ec =>
    rw [Option.elim_some]
    intro heq
    rcases (findErrorCode_spec hfind).2 with hcode | hcode | ⟨hsmall, -⟩
    · have hnat := congrArg UInt32.toNat hcode
      rw [heq, hvalue] at hnat
      omega
    · -- a Win32 code has sixteen bits, and the decimal one has more
      have hle : (UInt32.ofNat (hexReading c.toNat) &&& 0x0000FFFF).toNat ≤ 65535 := by
        rw [UInt32.toNat_and]
        exact Nat.and_le_right
      rw [← hcode, heq] at hle
      omega
    · rw [UInt32.le_iff_toNat_le, hvalue] at hsmall
      have hconst : (0xFFFF : UInt32).toNat = 65535 := rfl
      omega

theorem lookup_decimalForm_iff (errorCodes : List ErrorCode) (c : UInt32) :
    lookupErrorCode errorCodes (decimalForm c) = lookupCode errorCodes c ↔ ¬BareHex c := by
  rw [lookup_decimalForm]
  constructor
  · intro h hbare
    have hshown := congrArg ErrorLookupResult.codeHex h
    rw [if_pos hbare, lookupCode_codeHex, lookupCode_codeHex, shownCode_of_bareHex errorCodes hbare]
      at hshown
    exact shownCode_hexReading_ne errorCodes hbare (hexForm_injective hshown)
  · intro hbare
    rw [if_neg hbare]

/-- The printed forms of a code are found as one except where the decimal digits
are taken for hexadecimal ones, and so are the forms a lookup prints. -/
theorem printed_forms_found (errorCodes : List ErrorCode) :
    (∀ c : UInt32, lookupErrorCode errorCodes (hexForm c) =
      lookupErrorCode errorCodes (decimalForm c) ↔ ¬BareHex c) ∧
    ∀ (input : Text) (c : UInt32), tryParseErrorCode (trim input) = some c →
      lookupErrorCode errorCodes (lookupErrorCode errorCodes input).codeHex =
        lookupErrorCode errorCodes input ∧
      ∃ shown : UInt32, (lookupErrorCode errorCodes input).codeHex = hexForm shown ∧
        (lookupErrorCode errorCodes input).codeDecimal = decimalForm shown ∧
        (lookupErrorCode errorCodes (lookupErrorCode errorCodes input).codeDecimal =
          lookupErrorCode errorCodes input ↔ ¬BareHex shown) := by
  constructor
  · intro c
    rw [lookup_hexForm, eq_comm]
    exact lookup_decimalForm_iff errorCodes c
  · intro input c hparse
    have hinput : lookupErrorCode errorCodes input = lookupCode errorCodes c := by
      rw [lookupErrorCode, hparse]
    have hagain := lookupCode_shownCode errorCodes c
    rw [hinput, lookupCode_codeHex, lookupCode_codeDecimal, lookup_hexForm]
    refine ⟨hagain, shownCode errorCodes c, rfl, rfl, ?_⟩
    rw [← hagain]
    exact lookup_decimalForm_iff errorCodes (shownCode errorCodes c)

/-- Access is denied, stored under its HRESULT. -/
def accessDenied : ErrorCode :=
  { code        := 0x80070005
    description := "E_ACCESSDENIED - Access is denied".toList
    category    := .windows }

/-- A Win32 code typed in decimal shows its HRESULT, which is found again. -/
theorem printed_forms_found_win32 :
    lookupErrorCode [accessDenied] (lookupErrorCode [accessDenied] ['5']).codeHex =
      lookupErrorCode [accessDenied] ['5'] ∧
    ∃ shown : UInt32, (lookupErrorCode [accessDenied] ['5']).codeHex = hexForm shown ∧
      (lookupErrorCode [accessDenied] ['5']).codeDecimal = decimalForm shown ∧
      (lookupErrorCode [accessDenied] (lookupErrorCode [accessDenied] ['5']).codeDecimal =
        lookupErrorCode [accessDenied] ['5'] ↔ ¬BareHex shown) :=
  (printed_forms_found [accessDenied]).2 ['5'] 5 (by decide +kernel)

/-- The seven digits of a code's decimal form are taken for another code. -/
theorem decimal_form_is_another_code :
    let serviceStop : ErrorCode :=
      { code        := 0x00240001
        description := "WU_S_SERVICE_STOP - Windows Update Agent was stopped successfully".toList
        category    := .windowsUpdate }
    lookupErrorCode [serviceStop] (hexForm 0x00240001) ≠
      lookupErrorCode [serviceStop] (decimalForm 0x00240001) := by
  decide +kernel

end ErrorDb
end CmTrace
