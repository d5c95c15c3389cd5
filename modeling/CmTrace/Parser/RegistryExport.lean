import CmTrace.Parser.Registry

/-!
# Registry export files as they are written

An export escapes the backslashes and quotes of its names and strings, and wraps the
bytes of hexadecimal data wherever it likes.  Reading it back gives the keys and the
values that were written.
-/

namespace CmTrace
namespace Parser
namespace Registry

open Text

/-! ## Quoted texts -/

def escapeChar (c : Char) : Text := if c = '\\' ∨ c = '"' then ['\\', c] else [c]

def escapeRegString (s : Text) : Text := s.flatMap escapeChar

theorem escapeRegString_cons (c : Char) (s : Text) :
    escapeRegString (c :: s) = escapeChar c ++ escapeRegString s := rfl

theorem findClosingQuote_escape (s rest : Text) :
    findClosingQuote (escapeRegString s ++ '"' :: rest) = some (escapeRegString s, rest) := by
  induction s with
  | nil => rfl
  | cons c s ih =>
    rw [escapeRegString_cons, escapeChar]
    split_ifs with hc
    · show findClosingQuote ('\\' :: c :: (escapeRegString s ++ '"' :: rest)) = _
      rw [findClosingQuote, ih]
      rfl
    · rw [not_or] at hc
      show findClosingQuote (c :: (escapeRegString s ++ '"' :: rest)) = _
      rw [findClosingQuote, ih]
      · rfl
      · exact fun h => absurd h hc.1
      · exact fun d rest' h => absurd h hc.1
      · exact hc.2

theorem unescapeRegString_cons {c : Char} (hc : c ≠ '\\') (s : Text) :
    unescapeRegString (c :: s) = c :: unescapeRegString s := by
  rw [unescapeRegString]
  all_goals
    intros
    contradiction

theorem unescape_escape (s : Text) : unescapeRegString (escapeRegString s) = s := by
  induction s with
  | nil => rfl
  | cons c s ih =>
    rw [escapeRegString_cons, escapeChar]
    split_ifs with hc
    · rcases hc with rfl | rfl <;> exact congrArg _ ih
    · rw [not_or] at hc
      show unescapeRegString (c :: escapeRegString s) = _
      rw [unescapeRegString_cons hc.1, ih]

theorem not_mem_escape {s : Text} (h : '\n' ∉ s) : '\n' ∉ escapeRegString s := by
  rw [escapeRegString, List.mem_flatMap]
  rintro ⟨c, hc, hmem⟩
  have hne : c ≠ '\n' := fun heq => h (heq ▸ hc)
  rw [escapeChar] at hmem
  split_ifs at hmem <;> simp [hne.symm] at hmem

/-! ## Bytes -/

def hexByte (byte : UInt8) : Text := hexLower 2 byte.toNat

def hexText (bytes : List UInt8) : Text := join [','] (bytes.map hexByte)

def hexPiece (byte : UInt8) (bytes : List UInt8) : Text :=
  hexByte byte ++ if bytes = [] then [] else [',']

/-- The bytes of a line and the lines after it; `layout` says before which bytes the line
is broken, and how far the next one is indented. -/
def wrapped (layout : Nat → Option Nat) (i : Nat) : List UInt8 → Text × List Text
  | [] => ([], [])
  | byte :: bytes =>
    let rest := wrapped layout (i + 1) bytes
    let piece := hexPiece byte bytes ++ rest.1
    match layout i with
    | none => (piece, rest.2)
    | some blanks => (['\\'], (List.replicate blanks ' ' ++ piece) :: rest.2)

def lowBytes : Nat → Nat → List UInt8
  | 0, _ => []
  | count + 1, n => .ofNat (n % 256) :: lowBytes count (n / 256)

def unitBytes (unit : UInt16) : List UInt8 := lowBytes 2 unit.toNat

def utf16leBytes (units : List UInt16) : List UInt8 := units.flatMap unitBytes

/-! ## Exports -/

inductive ValueName where
  | default
  | named (name : Text)

namespace ValueName

def said : ValueName → Text
  | default => "(Default)".toList
  | named name => name

def written : ValueName → Text
  | default => ['@']
  | named name => '"' :: (escapeRegString name ++ ['"'])

def Fits : ValueName → Prop
  | default => True
  | named name => '\n' ∉ name

end ValueName

inductive Datum where
  | string (s : Text)
  | dword (n : Nat)
  | qword (n : Nat)
  | expand (s : Text)
  | multi (strings : List Text)
  | none (bytes : List UInt8)
  | binary (bytes : List UInt8)
  | deleted

namespace Datum

def kind : Datum → RegistryValueKind
  | string _ => .string
  | dword _ => .dword
  | qword _ => .qword
  | expand _ => .expandString
  | multi _ => .multiString
  | none _ => .none
  | binary _ => .binary
  | deleted => .deleteMarker

def opening : Datum → Text
  | string s => '"' :: (escapeRegString s ++ ['"'])
  | dword n => "dword:".toList ++ hexLower 8 n
  | qword _ => "hex(b):".toList
  | expand _ => "hex(2):".toList
  | multi _ => "hex(7):".toList
  | none _ => "hex(0):".toList
  | binary _ => "hex:".toList
  | deleted => ['-']

def bytes : Datum → List UInt8
  | string _ => []
  | dword _ => []
  | qword n => lowBytes 8 n
  | expand s => utf16leBytes (encodeUtf16 s ++ [0])
  | multi strings => utf16leBytes (strings.flatMap (fun s => encodeUtf16 s ++ [0]) ++ [0])
  | none bytes => bytes
  | binary bytes => bytes
  | deleted => []

def shown : Datum → Text
  | string s => s
  | dword n => formatNumber 8 n
  | qword n => formatNumber 16 n
  | expand s => s.rdropWhile fun c => c == '\x00'
  | multi strings => join separator (strings.filter fun s => !s.isEmpty)
  | none bytes => formatHexDisplay bytes
  | binary bytes => formatHexDisplay bytes
  | deleted => "(value deleted)".toList

def Fits : Datum → Prop
  | string s => '\n' ∉ s
  | dword n => n ≤ u32Max
  | qword n => n ≤ u64Max
  | multi strings => ∀ s ∈ strings, '\x00' ∉ s
  | _ => True

end Datum

structure ExportedValue where
  name : ValueName
  datum : Datum
  layout : Nat → Option Nat

namespace ExportedValue

def lines (value : ExportedValue) : List Text :=
  let body := wrapped value.layout 0 value.datum.bytes
  (value.name.written ++ '=' :: (value.datum.opening ++ body.1)) :: body.2

def read (n : Nat) (value : ExportedValue) : RegistryValue :=
  { name := value.name.said, kind := value.datum.kind, data := value.datum.shown, lineNumber := n }

def Fits (value : ExportedValue) : Prop := value.name.Fits ∧ value.datum.Fits

end ExportedValue

def readValues (n : Nat) : List ExportedValue → List RegistryValue
  | [] => []
  | value :: values => value.read n :: readValues (n + value.lines.length) values

structure ExportedKey where
  path : Text
  isDelete : Bool
  values : List ExportedValue

namespace ExportedKey

def line (key : ExportedKey) : Text :=
  '[' :: ((if key.isDelete then ['-'] else []) ++ key.path ++ [']'])

def lines (key : ExportedKey) : List Text :=
  key.line :: (key.values.flatMap ExportedValue.lines ++ [[]])

def read (n : Nat) (key : ExportedKey) : RegistryKey :=
  { path := key.path, values := readValues (n + 1) key.values, lineNumber := n
    isDelete := key.isDelete }

/-- The path of a key that is present does not begin with the mark of a deleted one. -/
def Fits (key : ExportedKey) : Prop :=
  '\n' ∉ key.path ∧ (key.isDelete = false → key.path.head? ≠ some '-') ∧
    ∀ value ∈ key.values, value.Fits

end ExportedKey

def readKeys (n : Nat) : List ExportedKey → List RegistryKey
  | [] => []
  | key :: keys => key.read n :: readKeys (n + key.lines.length) keys

def header : Text := "Windows Registry Editor Version 5.00".toList

/-- The lines of a file, each ended by a line feed with or without a carriage return. -/
def written (carriageReturn : Bool) (keys : List ExportedKey) : Text :=
  (header :: [] :: keys.flatMap ExportedKey.lines).flatMap fun line =>
    line ++ if carriageReturn then ['\r', '\n'] else ['\n']

/-! ## Characters of a printed value -/

theorem trim_solid {s : Text} (h : ∀ c ∈ s, isWhitespace c = false) : trim s = s := by
  cases hs : s.head? with
  | none =>
    rw [List.head?_eq_none_iff.mp hs]
    rfl
  | some c =>
    cases hl : s.getLast? with
    | none =>
      rw [List.getLast?_eq_none_iff.mp hl]
      rfl
    | some d =>
      exact trim_of_ends (h c (List.mem_of_head? hs)) (h d (List.mem_of_getLast? hl)) hl hs

theorem digitChar_plain : ∀ {d : Nat}, d < 16 → isWhitespace (Nat.digitChar d) = false ∧
    Nat.digitChar d ≠ '\\' ∧ Nat.digitChar d ≠ ',' ∧ isAsciiHexdigit (Nat.digitChar d) = true ∧
    (Nat.digitChar d).utf8Size = 1 := by
  decide

theorem hexLower_plain {width n : Nat} : ∀ c ∈ hexLower width n,
    isWhitespace c = false ∧ c ≠ '\\' ∧ c ≠ ',' ∧ isAsciiHexdigit c = true ∧ c.utf8Size = 1 := by
  intro c hc
  obtain ⟨d, hd, rfl⟩ := mem_hexLower hc
  exact digitChar_plain hd

theorem trim_hexLower (width n : Nat) : trim (hexLower width n) = hexLower width n :=
  trim_solid fun c hc => (hexLower_plain c hc).1

theorem all_hexLower (width n : Nat) : (hexLower width n).all isAsciiHexdigit = true :=
  List.all_eq_true.mpr fun c hc => (hexLower_plain c hc).2.2.2.1

theorem byteLen_hexLower (width n : Nat) :
    byteLen (hexLower width n) = (hexLower width n).length := by
  have hone : (hexLower width n).map Char.utf8Size =
      List.replicate (hexLower width n).length 1 := by
    refine List.eq_replicate_iff.mpr ⟨List.length_map _, fun size hsize => ?_⟩
    obtain ⟨c, hc, rfl⟩ := List.mem_map.mp hsize
    exact (hexLower_plain c hc).2.2.2.2
  rw [byteLen, hone, List.sum_replicate, smul_eq_mul, Nat.mul_one]

theorem hexLower_ne_nil (width n : Nat) : hexLower width n ≠ [] := by
  rw [hexLower]
  exact List.append_ne_nil_of_right_ne_nil _ Nat.toDigits_ne_nil

theorem length_hexByte (byte : UInt8) : (hexByte byte).length = 2 :=
  length_hexLower (by decide) byte.toNat_lt

theorem hexByte_ne_nil (byte : UInt8) : hexByte byte ≠ [] := hexLower_ne_nil 2 byte.toNat

theorem hexPiece_plain (byte : UInt8) (bytes : List UInt8) :
    ∀ c ∈ hexPiece byte bytes, isWhitespace c = false ∧ c ≠ '\\' := by
  intro c hc
  rcases List.mem_append.mp hc with hc | hc
  · exact ⟨(hexLower_plain c hc).1, (hexLower_plain c hc).2.1⟩
  · split_ifs at hc
    · exact absurd hc List.not_mem_nil
    · rw [List.mem_singleton.mp hc]
      decide

theorem hexPiece_ne_nil (byte : UInt8) (bytes : List UInt8) : hexPiece byte bytes ≠ [] :=
  List.append_ne_nil_of_left_ne_nil (hexByte_ne_nil byte) _

theorem wrapped_solid (layout : Nat → Option Nat) (bytes : List UInt8) :
    ∀ i, ∀ c ∈ (wrapped layout i bytes).1, isWhitespace c = false := by
  induction bytes with
  | nil => exact fun i c hc => absurd hc List.not_mem_nil
  | cons byte bytes ih =>
    intro i c hc
    rw [wrapped] at hc
    cases hlayout : layout i with
    | none =>
      rw [hlayout] at hc
      rcases List.mem_append.mp hc with hc | hc
      · exact (hexPiece_plain byte bytes c hc).1
      · exact ih (i + 1) c hc
    | some blanks =>
      rw [hlayout] at hc
      rw [List.mem_singleton.mp hc]
      rfl

theorem piece_solid (layout : Nat → Option Nat) (byte : UInt8) (bytes : List UInt8) (i : Nat) :
    ∀ c ∈ hexPiece byte bytes ++ (wrapped layout i bytes).1, isWhitespace c = false := by
  intro c hc
  rcases List.mem_append.mp hc with hc | hc
  · exact (hexPiece_plain byte bytes c hc).1
  · exact wrapped_solid layout bytes i c hc

/-! ## Wrapped bytes -/

theorem trim_blanks (blanks : Nat) (s : Text) : trim (List.replicate blanks ' ' ++ s) = trim s := by
  induction blanks with
  | zero => rfl
  | succ blanks ih => exact ih

theorem hexText_cons (byte : UInt8) (bytes : List UInt8) :
    hexText (byte :: bytes) = hexPiece byte bytes ++ hexText bytes := by
  cases bytes with
  | nil => simp [hexText, hexPiece, join]
  | cons next bytes => simp [hexText, hexPiece, join]

theorem joinContinuations_wrapped (layout : Nat → Option Nat) (bytes : List UInt8)
    (lines : List Text) : ∀ (i : Nat) (data : Text), data.getLast? ≠ some '\\' →
      joinContinuations (data ++ (wrapped layout i bytes).1) ((wrapped layout i bytes).2 ++ lines) =
        (some (data ++ hexText bytes), lines) := by
  induction bytes with
  | nil =>
    intro i data hdata
    show joinContinuations (data ++ []) lines = (some (data ++ []), lines)
    rw [List.append_nil]
    cases lines <;> rw [joinContinuations, if_neg hdata]
  | cons byte bytes ih =>
    intro i data hdata
    have hpiece : (data ++ hexPiece byte bytes).getLast? ≠ some '\\' := by
      intro hlast
      rw [List.getLast?_append_of_ne_nil _ (hexPiece_ne_nil byte bytes)] at hlast
      exact (hexPiece_plain byte bytes _ (List.mem_of_getLast? hlast)).2 rfl
    have hrest := ih (i + 1) _ hpiece
    rw [List.append_assoc] at hrest
    rw [hexText_cons, wrapped]
    cases layout i with
    | none =>
      dsimp only
      rw [hrest, List.append_assoc]
    | some blanks =>
      -- the line ends here and the next one is trimmed
      dsimp only
      rw [List.cons_append, joinContinuations, if_pos (by simp), List.dropLast_concat, trim_blanks,
        trim_solid (piece_solid layout byte bytes (i + 1)), hrest, List.append_assoc]

/-! ## Bytes that are read back -/

theorem parseHexByte_hexByte (byte : UInt8) : parseHexByte (hexByte byte) = some byte := by
  have hlen : byteLen (hexByte byte) = 2 := by
    rw [hexByte, byteLen_hexLower]
    exact length_hexByte byte
  have hdigits : (hexByte byte).all isAsciiHexdigit = true := all_hexLower 2 byte.toNat
  have hle : byte.toNat ≤ 255 := Nat.le_of_lt_succ byte.toNat_lt
  have hsolid : trim (hexByte byte) = hexByte byte := trim_hexLower 2 byte.toNat
  rw [parseHexByte, hsolid, if_neg (by simp [hlen, hdigits]), hexByte, digitsFrom_hexLower hle]
  show some (UInt8.ofNat byte.toNat) = some byte
  rw [UInt8.ofNat_toNat]

theorem mapM_parseHexByte (bytes : List UInt8) :
    (bytes.map hexByte).mapM parseHexByte = some bytes := by
  induction bytes with
  | nil => rfl
  | cons byte bytes ih =>
    rw [List.map_cons, List.mapM_cons, parseHexByte_hexByte, ih]
    rfl

theorem parseHexBytes_hexText (bytes : List UInt8) :
    parseHexBytes (hexText bytes) = some bytes := by
  cases bytes with
  | nil => rfl
  | cons byte bytes =>
    have hsplit : splitOn ',' (hexText (byte :: bytes)) = (byte :: bytes).map hexByte := by
      refine splitOn_join (fun piece hpiece hmem => ?_) (by simp)
      obtain ⟨b, -, rfl⟩ := List.mem_map.mp hpiece
      exact (hexLower_plain _ hmem).2.2.1 rfl
    have hne : trim (hexText (byte :: bytes)) ≠ [] := by
      intro hnil
      rw [trim_nil_iff, isBlank, List.all_eq_true] at hnil
      obtain ⟨c, hc⟩ := List.exists_mem_of_ne_nil _ (hexByte_ne_nil byte)
      have hblank := hnil c (by
        rw [hexText_cons, hexPiece]
        exact List.mem_append_left _ (List.mem_append_left _ hc))
      rw [(hexLower_plain c hc).1] at hblank
      cases hblank
    rw [parseHexBytes, if_neg hne, hsplit, mapM_parseHexByte]

theorem length_lowBytes (count n : Nat) : (lowBytes count n).length = count := by
  induction count generalizing n with
  | zero => rfl
  | succ count ih => rw [lowBytes, List.length_cons, ih]

theorem foldr_lowBytes (count n : Nat) :
    (lowBytes count n).foldr (fun byte value => byte.toNat + 256 * value) 0 = n % 256 ^ count := by
  induction count generalizing n with
  | zero => rw [lowBytes, List.foldr_nil, Nat.pow_zero, Nat.mod_one]
  | succ count ih =>
    have hbyte : (UInt8.ofNat (n % 256)).toNat = n % 256 := by
      rw [UInt8.toNat_ofNat', Nat.mod_mod]
    rw [lowBytes, List.foldr_cons, ih, hbyte, Nat.pow_succ', Nat.mod_mul]

theorem bytesToQword_lowBytes {n : Nat} (h : n ≤ u64Max) : bytesToQword (lowBytes 8 n) = n := by
  have htake : (lowBytes 8 n).take 8 = lowBytes 8 n :=
    List.take_of_length_le (length_lowBytes 8 n).le
  rw [bytesToQword, htake, foldr_lowBytes]
  exact Nat.mod_eq_of_lt (Nat.lt_of_le_of_lt h (by decide))

theorem littleEndianUnits_utf16leBytes (units : List UInt16) :
    littleEndianUnits (utf16leBytes units) = units := by
  induction units with
  | nil => rfl
  | cons unit units ih =>
    have hunit : UInt16.ofNat ((UInt8.ofNat (unit.toNat % 256)).toNat +
        256 * (UInt8.ofNat (unit.toNat / 256 % 256)).toNat) = unit := by
      have hlt := unit.toNat_lt
      rw [UInt8.toNat_ofNat', UInt8.toNat_ofNat']
      have hsum : unit.toNat % 256 % 2 ^ 8 + 256 * (unit.toNat / 256 % 256 % 2 ^ 8) =
          unit.toNat := by
        omega
      rw [hsum, UInt16.ofNat_toNat]
    show UInt16.ofNat _ :: littleEndianUnits (utf16leBytes units) = _
    rw [hunit, ih]

theorem zero_mem_charUnits {c : Char} (h : (0 : UInt16) ∈ charUnits c) : c = '\x00' := by
  have hmax : c.toNat < 0x110000 := by
    have hvalid : c.toNat < 0xD800 ∨ 0xDFFF < c.toNat ∧ c.toNat < 0x110000 := c.valid
    omega
  rw [charUnits] at h
  split_ifs at h with hc
  · have hzero := congrArg UInt16.toNat (List.mem_singleton.mp h)
    rw [UInt16.toNat_ofNat', Nat.mod_eq_of_lt hc] at hzero
    exact Char.ext (UInt32.toNat_inj.mp hzero.symm)
  · -- neither half of a pair is zero
    simp only [List.mem_cons, List.not_mem_nil, or_false] at h
    rcases h with h | h
    all_goals
      have hzero := congrArg UInt16.toNat h
      rw [UInt16.toNat_ofNat', Nat.mod_eq_of_lt (by omega), UInt16.toNat_zero] at hzero
      omega

theorem zero_not_mem_encodeUtf16 {s : Text} (h : '\x00' ∉ s) : (0 : UInt16) ∉ encodeUtf16 s := by
  rw [encodeUtf16, List.mem_flatMap]
  rintro ⟨c, hc, hmem⟩
  exact h (zero_mem_charUnits hmem ▸ hc)

theorem isEmpty_encodeUtf16 (s : Text) : (encodeUtf16 s).isEmpty = s.isEmpty := by
  cases s with
  | nil => rfl
  | cons c s =>
    show (charUnits c ++ encodeUtf16 s).isEmpty = false
    rw [charUnits]
    split_ifs <;> rfl

theorem decodeUtf16leBytes_written (s : Text) :
    decodeUtf16leBytes (utf16leBytes (encodeUtf16 s ++ [0])) =
      s.rdropWhile fun c => c == '\x00' := by
  have hnul : [(0 : UInt16)] = encodeUtf16 ['\x00'] := rfl
  rw [decodeUtf16leBytes, littleEndianUnits_utf16leBytes, hnul, ← encodeUtf16_append,
    Js.scalars_encodeUtf16]
  exact List.rdropWhile_concat_pos _ _ _ rfl

theorem splitOn_written {strings : List Text} (h : ∀ s ∈ strings, '\x00' ∉ s) :
    (strings.flatMap (fun s => encodeUtf16 s ++ [0]) ++ [(0 : UInt16)]).splitOn 0 =
      strings.map encodeUtf16 ++ [[], []] := by
  induction strings with
  | nil => rfl
  | cons s strings ih =>
    have hs := zero_not_mem_encodeUtf16 (h s List.mem_cons_self)
    have hrest := ih fun t ht => h t (List.mem_cons_of_mem s ht)
    rw [List.flatMap_cons, List.append_assoc, List.append_assoc, List.singleton_append,
      List.splitOn_append_cons_self_of_not_mem hs, hrest, List.map_cons, List.cons_append]

theorem decodeUtf16leMultiString_written {strings : List Text} (h : ∀ s ∈ strings, '\x00' ∉ s) :
    decodeUtf16leMultiString
        (utf16leBytes (strings.flatMap (fun s => encodeUtf16 s ++ [0]) ++ [0])) =
      join separator (strings.filter fun s => !s.isEmpty) := by
  have hread : ((strings.map encodeUtf16).filter fun s => !s.isEmpty).map Js.scalars =
      strings.filter fun s => !s.isEmpty := by
    rw [List.filter_map, List.map_map]
    simp only [Function.comp_def, isEmpty_encodeUtf16, Js.scalars_encodeUtf16, List.map_id']
  rw [decodeUtf16leMultiString, littleEndianUnits_utf16leBytes, splitOn_written h,
    List.filter_append, List.map_append, hread]
  simp

/-! ## Data that is read back -/

theorem hexData_hexText (kind : RegistryValueKind) (display : List UInt8 → Option Text)
    (bytes : List UInt8) {data : Text} (h : display bytes = some data) :
    hexData kind display (hexText bytes) = some (kind, data) := by
  rw [hexData, parseHexBytes_hexText]
  show (display bytes).bind _ = _
  rw [h]
  rfl

theorem valueData_string (s : Text) :
    valueData ('"' :: (escapeRegString s ++ ['"'])) = some (.string, s) := by
  have hlen : 2 ≤ byteLen ('"' :: (escapeRegString s ++ ['"'])) := by
    have hquote : ('"').utf8Size = 1 := rfl
    simp only [byteLen_cons, byteLen_append, byteLen_nil, hquote]
    omega
  rw [valueData, if_neg (by simp), if_pos ⟨rfl, hlen⟩, List.tail_cons, findClosingQuote_escape]
  show some (RegistryValueKind.string, unescapeRegString (escapeRegString s)) = _
  rw [unescape_escape]

theorem valueData_dword {n : Nat} (h : n ≤ u32Max) :
    valueData ("dword:".toList ++ hexLower 8 n) = some (.dword, formatNumber 8 n) := by
  have hlen : byteLen (hexLower 8 n) = 8 := by
    rw [byteLen_hexLower]
    exact length_hexLower (by decide) (Nat.lt_of_le_of_lt h (by decide))
  have hform : valueData ("dword:".toList ++ hexLower 8 n) =
      if trim (hexLower 8 n) = [] ∨ 8 < byteLen (trim (hexLower 8 n)) ∨
        (trim (hexLower 8 n)).all isAsciiHexdigit = false then none
      else (digitsFrom 16 u32Max 0 (trim (hexLower 8 n))).map fun value =>
        (.dword, formatNumber 8 value) := rfl
  rw [hform, trim_hexLower, if_neg (by simp [hexLower_ne_nil, hlen, all_hexLower]),
    digitsFrom_hexLower h]
  rfl

theorem valueData_printed {datum : Datum} (h : datum.Fits) :
    valueData (datum.opening ++ hexText datum.bytes) = some (datum.kind, datum.shown) := by
  cases datum with
  | string s => exact (congrArg valueData (List.append_nil _)).trans (valueData_string s)
  | dword n => exact (congrArg valueData (List.append_nil _)).trans (valueData_dword h)
  | deleted => rfl
  | qword n =>
    have hform : valueData ("hex(b):".toList ++ hexText (lowBytes 8 n)) =
        hexData .qword (fun bytes =>
          if bytes.length = 8 then some (formatNumber 16 (bytesToQword bytes)) else none)
          (hexText (lowBytes 8 n)) := rfl
    refine hform.trans (hexData_hexText _ _ _ ?_)
    rw [if_pos (length_lowBytes 8 n), bytesToQword_lowBytes h]
    rfl
  | expand s =>
    have hform : ∀ hex, valueData ("hex(2):".toList ++ hex) =
        hexData .expandString (fun bytes => some (decodeUtf16leBytes bytes)) hex := fun hex => rfl
    exact (hform _).trans (hexData_hexText _ _ _ (congrArg some (decodeUtf16leBytes_written s)))
  | multi strings =>
    have hform : ∀ hex, valueData ("hex(7):".toList ++ hex) =
        hexData .multiString (fun bytes => some (decodeUtf16leMultiString bytes)) hex :=
      fun hex => rfl
    exact (hform _).trans
      (hexData_hexText _ _ _ (congrArg some (decodeUtf16leMultiString_written h)))
  | none bytes =>
    have hform : ∀ hex, valueData ("hex(0):".toList ++ hex) =
        hexData .none (fun bytes => some (formatHexDisplay bytes)) hex := fun hex => rfl
    exact (hform _).trans (hexData_hexText _ _ bytes rfl)
  | binary bytes =>
    have hform : ∀ hex, valueData ("hex:".toList ++ hex) =
        hexData .binary (fun bytes => some (formatHexDisplay bytes)) hex := fun hex => rfl
    exact (hform _).trans (hexData_hexText _ _ bytes rfl)

/-! ## Lines that are read back -/

theorem valueName_written (name : ValueName) {data : Text} (h : trimStart data = data) :
    valueName (name.written ++ '=' :: data) = some (name.said, data) := by
  cases name with
  | default => rfl
  | named name =>
    show ((findClosingQuote ((escapeRegString name ++ ['"']) ++ '=' :: data)).bind _) = _
    rw [List.append_assoc, List.singleton_append, findClosingQuote_escape, Option.bind_some,
      unescape_escape]
    show some (name, trimStart data) = _
    rw [h]
    rfl

theorem opening_ends (datum : Datum) :
    (∃ c, datum.opening.head? = some c ∧ isWhitespace c = false) ∧
      ∃ d, datum.opening.getLast? = some d ∧ isWhitespace d = false ∧ d ≠ '\\' := by
  cases datum with
  | string s =>
    refine ⟨⟨'"', rfl, rfl⟩, '"', ?_, rfl, by decide⟩
    show ('"' :: (escapeRegString s ++ ['"'])).getLast? = _
    rw [← List.cons_append, List.getLast?_concat]
  | dword n =>
    obtain ⟨d, hd⟩ := Option.ne_none_iff_exists'.mp
      (mt List.getLast?_eq_none_iff.mp (hexLower_ne_nil 8 n))
    have hplain := hexLower_plain d (List.mem_of_getLast? hd)
    refine ⟨⟨'d', rfl, rfl⟩, d, ?_, hplain.1, hplain.2.1⟩
    show ("dword:".toList ++ hexLower 8 n).getLast? = _
    rw [List.getLast?_append_of_ne_nil _ (hexLower_ne_nil 8 n), hd]
  | qword n => exact ⟨⟨'h', rfl, rfl⟩, ':', rfl, rfl, by decide⟩
  | expand s => exact ⟨⟨'h', rfl, rfl⟩, ':', rfl, rfl, by decide⟩
  | multi strings => exact ⟨⟨'h', rfl, rfl⟩, ':', rfl, rfl, by decide⟩
  | none bytes => exact ⟨⟨'h', rfl, rfl⟩, ':', rfl, rfl, by decide⟩
  | binary bytes => exact ⟨⟨'h', rfl, rfl⟩, ':', rfl, rfl, by decide⟩
  | deleted => exact ⟨⟨'-', rfl, rfl⟩, '-', rfl, rfl, by decide⟩

theorem hexText_solid (bytes : List UInt8) : ∀ c ∈ hexText bytes, isWhitespace c = false := by
  induction bytes with
  | nil => exact fun c hc => absurd hc List.not_mem_nil
  | cons byte bytes ih =>
    intro c hc
    rw [hexText_cons] at hc
    rcases List.mem_append.mp hc with hc | hc
    · exact (hexPiece_plain byte bytes c hc).1
    · exact ih c hc

theorem trim_data (pre : Text) (datum : Datum) {s : Text} (hs : ∀ c ∈ s, isWhitespace c = false)
    (hpre : ∀ c, pre.head? = some c → isWhitespace c = false) :
    trim (pre ++ (datum.opening ++ s)) = pre ++ (datum.opening ++ s) := by
  obtain ⟨⟨c, hc, hblank⟩, d, hd, hlast, -⟩ := opening_ends datum
  have hfirst : ∃ c, (pre ++ (datum.opening ++ s)).head? = some c ∧ isWhitespace c = false := by
    rw [List.head?_append, List.head?_append, hc]
    cases hp : pre.head? with
    | none => exact ⟨c, rfl, hblank⟩
    | some c' => exact ⟨c', rfl, hpre c' hp⟩
  have hend : ∃ d, (pre ++ (datum.opening ++ s)).getLast? = some d ∧ isWhitespace d = false := by
    rw [List.getLast?_append, List.getLast?_append, hd]
    cases hl : s.getLast? with
    | none => exact ⟨d, rfl, hlast⟩
    | some d' => exact ⟨d', rfl, hs d' (List.mem_of_getLast? hl)⟩
  obtain ⟨c', hc', hsolid⟩ := hfirst
  obtain ⟨d', hd', hsolid'⟩ := hend
  exact trim_of_ends hsolid hsolid' hd' hc'

theorem parseValueLine_written {value : ExportedValue} (h : value.datum.Fits) (n : Nat)
    (lines : List Text) {line : Text} {more : List Text} (hlines : value.lines = line :: more) :
    parseValueLine line n (more ++ lines) = (some (value.read n), lines) := by
  obtain ⟨rfl, rfl⟩ := List.cons.inj hlines
  have hdata : ∀ c, ([] : Text).head? = some c → isWhitespace c = false := fun c hc => by cases hc
  have hstart : trimStart (value.datum.opening ++ (wrapped value.layout 0 value.datum.bytes).1) =
      value.datum.opening ++ (wrapped value.layout 0 value.datum.bytes).1 := by
    have htrim := trim_data [] value.datum (wrapped_solid value.layout value.datum.bytes 0) hdata
    rw [List.nil_append] at htrim
    rw [← htrim, trimStart_trim]
  obtain ⟨-, d, hd, -, hback⟩ := opening_ends value.datum
  have hjoin := joinContinuations_wrapped value.layout value.datum.bytes lines 0
    value.datum.opening (by
      rw [hd]
      exact fun heq => hback (Option.some_inj.mp heq))
  have hfull := trim_data [] value.datum (hexText_solid value.datum.bytes) hdata
  rw [List.nil_append] at hfull
  rw [parseValueLine, valueName_written value.name hstart]
  dsimp only
  rw [hjoin]
  show ((valueData (trim (value.datum.opening ++ hexText value.datum.bytes))).bind _, lines) = _
  rw [hfull, valueData_printed h]
  rfl

def ExportedKey.opened (n : Nat) (key : ExportedKey) : RegistryKey :=
  { path := key.path, values := [], lineNumber := n, isDelete := key.isDelete }

namespace Scan

def addValues (st : Scan) (key : RegistryKey) (values : List RegistryValue) : Scan :=
  { st with
    currentKey  := some { key with values := values }
    totalValues := st.totalValues + values.length }

end Scan

theorem written_head (name : ValueName) (s : Text) :
    ∃ c, (name.written ++ s).head? = some c ∧ isWhitespace c = false ∧ c ≠ '[' := by
  cases name with
  | default => exact ⟨'@', rfl, rfl, by decide⟩
  | named name => exact ⟨'"', rfl, rfl, by decide⟩

theorem readLines_value {st : Scan} {key : RegistryKey} (hkey : st.currentKey = some key)
    {value : ExportedValue} (h : value.Fits) (n : Nat) (lines : List Text) :
    readLines st n (value.lines ++ lines) =
      readLines (st.addValue key (value.read n)) (n + value.lines.length) lines := by
  obtain ⟨line, more, hlines⟩ : ∃ line more, value.lines = line :: more := ⟨_, _, rfl⟩
  have hline : line = (value.name.written ++ ['=']) ++
      (value.datum.opening ++ (wrapped value.layout 0 value.datum.bytes).1) := by
    rw [List.append_assoc]
    exact (List.cons.inj hlines).1.symm
  obtain ⟨c, hc, hblank, hbracket⟩ := written_head value.name ['=']
  have htrim : trim line = line := by
    rw [hline]
    refine trim_data _ value.datum (wrapped_solid value.layout value.datum.bytes 0) fun d hd => ?_
    rw [hc, Option.some_inj] at hd
    exact hd ▸ hblank
  have hhead : line.head? = some c := by rw [hline, List.head?_append, hc, Option.some_or]
  have hne : line ≠ [] := fun hnil => by
    rw [hnil] at hhead
    cases hhead
  have hnone : keyLine line n = none := by
    rw [keyLine, if_neg]
    rintro ⟨hopen, -⟩
    rw [hhead, Option.some_inj] at hopen
    exact hbracket hopen
  rw [hlines, List.cons_append, readLines]
  simp only [htrim, if_neg hne, hnone, hkey, parseValueLine_written h.2 n lines hlines,
    List.length_append, List.length_cons]
  congr 1
  omega

theorem readLines_values {st : Scan} {key : RegistryKey} {values : List ExportedValue}
    (h : ∀ value ∈ values, value.Fits) (done : List RegistryValue) (n : Nat) (lines : List Text) :
    readLines (st.addValues key done) n (values.flatMap ExportedValue.lines ++ lines) =
      readLines (st.addValues key (done ++ readValues n values))
        (n + (values.flatMap ExportedValue.lines).length) lines := by
  induction values generalizing done n with
  | nil => rw [readValues, List.append_nil]; rfl
  | cons value values ih =>
    have hvalue : readLines (st.addValues key done) n
        (value.lines ++ (values.flatMap ExportedValue.lines ++ lines)) =
          readLines (st.addValues key (done ++ [value.read n])) (n + value.lines.length)
            (values.flatMap ExportedValue.lines ++ lines) := by
      rw [readLines_value rfl (h value List.mem_cons_self)]
      simp only [Scan.addValue, Scan.addValues, List.length_append, List.length_singleton,
        Nat.add_assoc]
    rw [List.flatMap_cons, List.append_assoc, hvalue,
      ih (fun v hv => h v (List.mem_cons_of_mem value hv)), readValues, List.append_assoc,
      List.length_append, Nat.add_assoc]
    rfl

theorem keyLine_line {key : ExportedKey} (h : key.isDelete = false → key.path.head? ≠ some '-')
    (n : Nat) : keyLine key.line n = some (key.opened n) := by
  have hlast : key.line.getLast? = some ']' := by
    rw [ExportedKey.line, ← List.cons_append, List.getLast?_concat]
  have hinner : key.line.tail.dropLast = (if key.isDelete then ['-'] else []) ++ key.path := by
    rw [ExportedKey.line, List.tail_cons, List.dropLast_concat]
  rw [keyLine, if_pos ⟨rfl, hlast⟩, hinner, ExportedKey.opened]
  cases hdelete : key.isDelete with
  | true => rfl
  | false =>
    rw [if_neg Bool.false_ne_true, List.nil_append]
    split
    · rename_i path heq
      exact absurd (congrArg List.head? heq) (h hdelete)
    · rfl

theorem readLines_key {key : ExportedKey} (h : key.isDelete = false → key.path.head? ≠ some '-')
    (st : Scan) (n : Nat) (lines : List Text) :
    readLines st n (key.line :: lines) = readLines (st.openKey (key.opened n)) (n + 1) lines := by
  have hlast : key.line.getLast? = some ']' := by
    rw [ExportedKey.line, ← List.cons_append, List.getLast?_concat]
  have htrim : trim key.line = key.line := trim_of_ends rfl rfl hlast rfl
  have hne : key.line ≠ [] := List.cons_ne_nil _ _
  rw [readLines]
  simp only [htrim, if_neg hne, keyLine_line h]

theorem readLines_blank (st : Scan) (n : Nat) (lines : List Text) :
    readLines st n ([] :: lines) = readLines st (n + 1) lines := by
  rw [readLines]
  exact if_pos rfl

def valueCount (keys : List ExportedKey) : Nat := (keys.map fun key => key.values.length).sum

theorem length_readValues (n : Nat) (values : List ExportedValue) :
    (readValues n values).length = values.length := by
  induction values generalizing n with
  | nil => rfl
  | cons value values ih => rw [readValues, List.length_cons, ih, List.length_cons]

theorem readLines_exportedKey {key : ExportedKey} (h : key.Fits) (st : Scan) (n : Nat)
    (lines : List Text) :
    readLines st n (key.lines ++ lines) =
      readLines
        ((st.openKey (key.opened n)).addValues (key.opened n) (readValues (n + 1) key.values))
        (n + key.lines.length) lines := by
  have hvalues := @readLines_values (st.openKey (key.opened n)) (key.opened n) key.values h.2.2 []
    (n + 1) ([] :: lines)
  have hcount : n + 1 + (key.values.flatMap ExportedValue.lines).length + 1 =
      n + key.lines.length := by
    rw [ExportedKey.lines, List.length_cons, List.length_append, List.length_singleton]
    omega
  rw [ExportedKey.lines, List.cons_append, readLines_key h.2.1, List.append_assoc,
    List.singleton_append]
  refine hvalues.trans ?_
  rw [List.nil_append, readLines_blank, hcount, ExportedKey.lines]

theorem readLines_keys {keys : List ExportedKey} (h : ∀ key ∈ keys, key.Fits) (st : Scan)
    (n : Nat) :
    (readLines st n (keys.flatMap ExportedKey.lines)).flush = st.flush ++ readKeys n keys ∧
      (readLines st n (keys.flatMap ExportedKey.lines)).parseErrors = st.parseErrors ∧
      (readLines st n (keys.flatMap ExportedKey.lines)).totalValues =
        st.totalValues + valueCount keys := by
  induction keys generalizing st n with
  | nil =>
    rw [List.flatMap_nil, readLines, readKeys, List.append_nil]
    exact ⟨rfl, rfl, rfl⟩
  | cons key keys ih =>
    obtain ⟨hkeys, herrors, htotal⟩ := ih (fun k hk => h k (List.mem_cons_of_mem key hk))
      ((st.openKey (key.opened n)).addValues (key.opened n) (readValues (n + 1) key.values))
      (n + key.lines.length)
    rw [List.flatMap_cons, readLines_exportedKey (h key List.mem_cons_self)]
    refine ⟨?_, herrors, ?_⟩
    · rw [hkeys, readKeys]
      show (st.flush ++ [key.read n]) ++ readKeys (n + key.lines.length) keys = _
      rw [List.append_assoc, List.singleton_append]
    · have hcount : valueCount (key :: keys) = key.values.length + valueCount keys := by
        rw [valueCount, List.map_cons, List.sum_cons]
        rfl
      rw [htotal, hcount, ← Nat.add_assoc]
      show st.totalValues + (readValues (n + 1) key.values).length + _ = _
      rw [length_readValues]

/-! ## Files that are read back -/

theorem length_readKeys (n : Nat) (keys : List ExportedKey) :
    (readKeys n keys).length = keys.length := by
  induction keys generalizing n with
  | nil => rfl
  | cons key keys ih => rw [readKeys, List.length_cons, ih, List.length_cons]

def IsLine (s : Text) : Prop := '\n' ∉ s ∧ s.getLast? ≠ some '\r'

theorem lines_isLine {s : Text} (h : IsLine s) (carriageReturn : Bool) (rest : Text) :
    lines (s ++ (if carriageReturn then ['\r', '\n'] else ['\n']) ++ rest) = s :: lines rest := by
  cases carriageReturn with
  | true =>
    have hmem : '\n' ∉ s ++ ['\r'] := by simp [h.1]
    have hterminated := terminated_newline hmem []
    have hcomplete : Complete (s ++ ['\r', '\n']) := by
      rw [Complete, lastLine, show s ++ ['\r', '\n'] = (s ++ ['\r']) ++ '\n' :: [] by simp,
        hterminated]
      rfl
    have hlines : lines (s ++ ['\r', '\n']) = [s] := by
      rw [lines_of_complete hcomplete, completeLines,
        show s ++ ['\r', '\n'] = (s ++ ['\r']) ++ '\n' :: [] by simp, hterminated]
      simp [terminated, stripCarriageReturn]
    exact (lines_append hcomplete rest).trans (by rw [hlines, List.singleton_append])
  | false =>
    have hterminated := terminated_newline h.1 []
    have hcomplete : Complete (s ++ ['\n']) := by
      rw [Complete, lastLine, hterminated]
      rfl
    have hlines : lines (s ++ ['\n']) = [s] := by
      rw [lines_of_complete hcomplete, completeLines, hterminated]
      simp [terminated, stripCarriageReturn, h.2]
    exact (lines_append hcomplete rest).trans (by rw [hlines, List.singleton_append])

theorem lines_written {carriageReturn : Bool} {texts : List Text} (h : ∀ s ∈ texts, IsLine s) :
    lines (texts.flatMap fun s => s ++ if carriageReturn then ['\r', '\n'] else ['\n']) =
      texts := by
  induction texts with
  | nil => rfl
  | cons s texts ih =>
    rw [List.flatMap_cons, lines_isLine (h s List.mem_cons_self),
      ih fun t ht => h t (List.mem_cons_of_mem s ht)]

theorem not_mem_solid {s : Text} (h : ∀ c ∈ s, isWhitespace c = false) : '\n' ∉ s := fun hmem => by
  have hblank := h '\n' hmem
  cases hblank

theorem isLine_of_last {s : Text} (h : '\n' ∉ s) {d : Char} (hlast : s.getLast? = some d)
    (hd : isWhitespace d = false) : IsLine s := by
  refine ⟨h, fun heq => ?_⟩
  rw [hlast, Option.some_inj] at heq
  rw [heq] at hd
  cases hd

theorem wrapped_lines (layout : Nat → Option Nat) (bytes : List UInt8) (i : Nat) :
    ∀ line ∈ (wrapped layout i bytes).2, ∃ blanks s, line = List.replicate blanks ' ' ++ s ∧
      s ≠ [] ∧ ∀ c ∈ s, isWhitespace c = false := by
  induction bytes generalizing i with
  | nil => exact fun line hline => absurd hline List.not_mem_nil
  | cons byte bytes ih =>
    intro line hline
    rw [wrapped] at hline
    cases hlayout : layout i with
    | none =>
      rw [hlayout] at hline
      exact ih (i + 1) line hline
    | some blanks =>
      rw [hlayout] at hline
      rcases List.mem_cons.mp hline with rfl | hline
      · exact ⟨blanks, _, rfl, List.append_ne_nil_of_left_ne_nil (hexPiece_ne_nil byte bytes) _,
          piece_solid layout byte bytes (i + 1)⟩
      · exact ih (i + 1) line hline

theorem not_mem_written {name : ValueName} (h : name.Fits) : '\n' ∉ name.written := by
  cases name with
  | default => decide
  | named name =>
    have hname := not_mem_escape h
    simp [ValueName.written, hname]

theorem not_mem_opening {datum : Datum} (h : datum.Fits) : '\n' ∉ datum.opening := by
  cases datum with
  | string s =>
    have hs := not_mem_escape h
    show '\n' ∉ '"' :: (escapeRegString s ++ ['"'])
    simp [hs]
  | dword n =>
    intro hmem
    rcases List.mem_append.mp hmem with hmem | hmem
    · exact absurd hmem (by decide)
    · exact not_mem_solid (fun c hc => (hexLower_plain c hc).1) hmem
  | qword n => exact (by decide : '\n' ∉ "hex(b):".toList)
  | expand s => exact (by decide : '\n' ∉ "hex(2):".toList)
  | multi strings => exact (by decide : '\n' ∉ "hex(7):".toList)
  | none bytes => exact (by decide : '\n' ∉ "hex(0):".toList)
  | binary bytes => exact (by decide : '\n' ∉ "hex:".toList)
  | deleted => decide

theorem isLine_value {value : ExportedValue} (h : value.Fits) :
    ∀ line ∈ value.lines, IsLine line := by
  intro line hline
  rcases List.mem_cons.mp hline with rfl | hline
  · have hsolid := wrapped_solid value.layout value.datum.bytes 0
    obtain ⟨-, d, hd, hblank, -⟩ := opening_ends value.datum
    have hlast : ∃ d, (value.datum.opening ++
        (wrapped value.layout 0 value.datum.bytes).1).getLast? = some d ∧
          isWhitespace d = false := by
      rw [List.getLast?_append, hd]
      cases hl : (wrapped value.layout 0 value.datum.bytes).1.getLast? with
      | none => exact ⟨d, rfl, hblank⟩
      | some d' => exact ⟨d', rfl, hsolid d' (List.mem_of_getLast? hl)⟩
    obtain ⟨d', hd', hblank'⟩ := hlast
    refine isLine_of_last ?_ (d := d') ?_ hblank'
    · have hname := not_mem_written h.1
      have hopening := not_mem_opening h.2
      have hbytes := not_mem_solid hsolid
      simp [hname, hopening, hbytes]
    · rw [← List.singleton_append, ← List.append_assoc, List.getLast?_append, hd', Option.some_or]
  · obtain ⟨blanks, s, rfl, hne, hsolid⟩ := wrapped_lines _ _ _ line hline
    obtain ⟨d, hd⟩ := Option.ne_none_iff_exists'.mp (mt List.getLast?_eq_none_iff.mp hne)
    refine isLine_of_last ?_ (d := d) ?_ (hsolid d (List.mem_of_getLast? hd))
    · have hs := not_mem_solid hsolid
      simp [hs]
    · rw [List.getLast?_append, hd, Option.some_or]

theorem isLine_key {key : ExportedKey} (h : key.Fits) : ∀ line ∈ key.lines, IsLine line := by
  intro line hline
  rw [ExportedKey.lines, List.mem_cons, List.mem_append, List.mem_singleton] at hline
  rcases hline with rfl | hline | rfl
  · refine isLine_of_last (d := ']') ?_ ?_ rfl
    · have hpath := h.1
      cases hdelete : key.isDelete <;> simp [ExportedKey.line, hdelete, hpath]
    · rw [ExportedKey.line, ← List.cons_append, List.getLast?_concat]
  · obtain ⟨value, hvalue, hmem⟩ := List.mem_flatMap.mp hline
    exact isLine_value (h.2.2 value hvalue) line hmem
  · exact ⟨List.not_mem_nil, by simp⟩

theorem isLine_header : IsLine header := ⟨by decide, by decide⟩

theorem skipHeader_keys (n : Nat) (keys : List ExportedKey) :
    skipHeader n (keys.flatMap ExportedKey.lines) = (n, keys.flatMap ExportedKey.lines) := by
  cases keys with
  | nil => rfl
  | cons key keys =>
    have hlast : key.line.getLast? = some ']' := by
      rw [ExportedKey.line, ← List.cons_append, List.getLast?_concat]
    have htrim : trim key.line = key.line := trim_of_ends rfl rfl hlast rfl
    have hheader : isHeaderLine (trim key.line) = false := by
      rw [htrim]
      rfl
    rw [List.flatMap_cons, ExportedKey.lines, List.cons_append, skipHeader, hheader]
    rfl

theorem parseRegistryContent_written {keys : List ExportedKey} (h : ∀ key ∈ keys, key.Fits)
    (carriageReturn : Bool) (filePath : Text) (fileSize : Nat) :
    parseRegistryContent (written carriageReturn keys) filePath fileSize =
      { keys        := readKeys 3 keys
        filePath    := filePath
        fileSize    := fileSize
        totalKeys   := keys.length
        totalValues := valueCount keys
        parseErrors := 0 } := by
  have hlines : lines (written carriageReturn keys) =
      header :: [] :: keys.flatMap ExportedKey.lines := by
    refine lines_written fun line hline => ?_
    rcases List.mem_cons.mp hline with rfl | hline
    · exact isLine_header
    · rcases List.mem_cons.mp hline with rfl | hline
      · exact ⟨List.not_mem_nil, by simp⟩
      · obtain ⟨key, hkey, hmem⟩ := List.mem_flatMap.mp hline
        exact isLine_key (h key hkey) line hmem
  have hskip : skipHeader 1 (header :: [] :: keys.flatMap ExportedKey.lines) =
      (3, keys.flatMap ExportedKey.lines) := by
    rw [skipHeader, if_pos (by decide), skipHeader, if_pos (by decide)]
    exact skipHeader_keys 3 keys
  have hcount : (readKeys 3 keys).length = keys.length := length_readKeys 3 keys
  obtain ⟨hkeys, herrors, htotal⟩ := readLines_keys h {} 3
  have hflush : ({} : Scan).flush ++ readKeys 3 keys = readKeys 3 keys := rfl
  rw [parseRegistryContent, hlines, hskip]
  dsimp only
  rw [hkeys, hflush, herrors, htotal, hcount, Nat.zero_add]

/-! ## Any file -/

def Scan.Counted (st : Scan) : Prop :=
  st.totalValues = (st.flush.map fun key => key.values.length).sum

theorem keyLine_values {trimmed : Text} {n : Nat} {key : RegistryKey}
    (h : keyLine trimmed n = some key) : key.values = [] := by
  rw [keyLine] at h
  split_ifs at h
  split at h <;> exact Option.some_inj.mp h ▸ rfl

theorem Scan.counted_openKey {st : Scan} (h : st.Counted) {key : RegistryKey}
    (hkey : key.values = []) : (st.openKey key).Counted := by
  show st.totalValues = ((st.flush ++ [key]).map fun key => key.values.length).sum
  rw [List.map_append, List.sum_append, ← h]
  simp [hkey]

theorem Scan.counted_addValue {st : Scan} (h : st.Counted) {key : RegistryKey}
    (hkey : st.currentKey = some key) (value : RegistryValue) :
    (st.addValue key value).Counted := by
  rw [Counted, flush, hkey] at h
  show st.totalValues + 1 = ((st.keys ++ [_]).map fun key : RegistryKey => key.values.length).sum
  rw [h]
  simp [Nat.add_assoc]

theorem readLines_counted (st : Scan) (n : Nat) (lines : List Text) (h : st.Counted) :
    (readLines st n lines).Counted := by
  induction st, n, lines using readLines.induct with
  | case1 st n => rwa [readLines]
  | case2 st n line lines trimmed hblank ih =>
    rw [readLines, if_pos hblank]
    exact ih h
  | case3 st n line lines trimmed hline key hkey ih =>
    rw [readLines, if_neg hline, hkey]
    exact ih (Scan.counted_openKey h (keyLine_values hkey))
  | case4 st n line lines trimmed hline hkey hcurrent ih =>
    rw [readLines, if_neg hline, hkey, hcurrent]
    exact ih h
  | case5 st n line lines trimmed hline hkey key hcurrent read hle next value hvalue ih =>
    rw [readLines, if_neg hline, hkey, hcurrent]
    dsimp only
    rw [hvalue]
    exact ih (Scan.counted_addValue h hcurrent value)
  | case6 st n line lines trimmed hline hkey key hcurrent read hle next hvalue ih =>
    rw [readLines, if_neg hline, hkey, hcurrent]
    dsimp only
    rw [hvalue]
    exact ih h

theorem parseRegistryContent_counted (content filePath : Text) (fileSize : Nat) :
    (parseRegistryContent content filePath fileSize).totalValues =
      ((parseRegistryContent content filePath fileSize).keys.map
        fun key => key.values.length).sum :=
  readLines_counted {} _ _ rfl

def dataForms : List Text :=
  ["dword:".toList, "hex(b):".toList, "hex(2):".toList, "hex(7):".toList, "hex(0):".toList,
    "hex:".toList, "hex(".toList]

def IsRecognised (data : Text) : Prop :=
  data = ['-'] ∨ (data.head? = some '"' ∧ 2 ≤ byteLen data) ∨ ∃ form ∈ dataForms, form <+: data

instance (data : Text) : Decidable (IsRecognised data) := inferInstanceAs (Decidable (_ ∨ _ ∨ _))

theorem stripPrefix_eq_none {start s : Text} (h : ¬ start <+: s) : stripPrefix start s = none := by
  rw [stripPrefix, if_neg]
  exact fun hpre => h (List.isPrefixOf_iff_prefix.mp hpre)

theorem valueData_unrecognised {data : Text} (h : ¬ IsRecognised data) :
    valueData data = some (.string, data) := by
  rw [IsRecognised, not_or, not_or] at h
  have hform : ∀ form ∈ dataForms, stripPrefix form data = none := fun form hform =>
    stripPrefix_eq_none fun hpre => h.2.2 ⟨form, hform, hpre⟩
  simp only [dataForms, List.forall_mem_cons] at hform
  obtain ⟨h1, h2, h3, h4, h5, h6, h7, -⟩ := hform
  rw [valueData, if_neg h.1, if_neg h.2.1, h1, h2, h3, h4, h5, h6, h7]

theorem readLines_unrecognised {st : Scan} {key : RegistryKey} (hkey : st.currentKey = some key)
    (name : ValueName) {data : Text} (htrim : trim data = data) (hlast : data.getLast? ≠ some '\\')
    (h : ¬ IsRecognised data) (n : Nat) (lines : List Text) :
    readLines st n ((name.written ++ '=' :: data) :: lines) =
      readLines (st.addValue key
        { name := name.said, kind := .string, data := data, lineNumber := n }) (n + 1) lines := by
  obtain ⟨c, hc, hblank, hbracket⟩ := written_head name ('=' :: data)
  have hend : ∃ d, (name.written ++ '=' :: data).getLast? = some d ∧ isWhitespace d = false := by
    rw [← List.singleton_append, ← List.append_assoc, List.getLast?_append]
    cases hd : data.getLast? with
    | none => exact ⟨'=', by rw [Option.none_or, List.getLast?_concat], rfl⟩
    | some d => exact ⟨d, rfl, last_of_trim htrim hd⟩
  obtain ⟨d, hd, hblank'⟩ := hend
  have hline : trim (name.written ++ '=' :: data) = name.written ++ '=' :: data :=
    trim_of_ends hblank hblank' hd hc
  have hne : name.written ++ '=' :: data ≠ [] := fun hnil => by
    rw [hnil] at hc
    cases hc
  have hnone : keyLine (name.written ++ '=' :: data) n = none := by
    rw [keyLine, if_neg]
    rintro ⟨hopen, -⟩
    rw [hc, Option.some_inj] at hopen
    exact hbracket hopen
  have hstart : trimStart data = data := by rw [← htrim, trimStart_trim]
  have hjoin : joinContinuations data lines = (some data, lines) := by
    cases lines <;> rw [joinContinuations, if_neg hlast]
  have hvalue : parseValueLine (name.written ++ '=' :: data) n lines =
      (some { name := name.said, kind := .string, data := data, lineNumber := n }, lines) := by
    rw [parseValueLine, valueName_written name hstart]
    dsimp only
    rw [hjoin]
    show ((valueData (trim data)).bind _, lines) = _
    rw [htrim, valueData_unrecognised h]
    rfl
  rw [readLines]
  simp only [hline, if_neg hne, hnone, hkey, hvalue]
  congr 1
  omega

/-- A printed export is read back as it was, the values counted are those returned, and
data of no known form is kept as a string. -/
theorem parseRegistryContent_exact {keys : List ExportedKey} (h : ∀ key ∈ keys, key.Fits)
    (carriageReturn : Bool) (filePath : Text) (fileSize : Nat) :
    parseRegistryContent (written carriageReturn keys) filePath fileSize =
        { keys        := readKeys 3 keys
          filePath    := filePath
          fileSize    := fileSize
          totalKeys   := keys.length
          totalValues := valueCount keys
          parseErrors := 0 } ∧
      (∀ content, (parseRegistryContent content filePath fileSize).totalValues =
        ((parseRegistryContent content filePath fileSize).keys.map
          fun key => key.values.length).sum) ∧
      ∀ (st : Scan) (key : RegistryKey), st.currentKey = some key →
        ∀ (name : ValueName) (data : Text),
        trim data = data → data.getLast? ≠ some '\\' → ¬ IsRecognised data →
        ∀ n lines, readLines st n ((name.written ++ '=' :: data) :: lines) =
          readLines (st.addValue key
            { name := name.said, kind := .string, data := data, lineNumber := n }) (n + 1) lines :=
  ⟨parseRegistryContent_written h carriageReturn filePath fileSize,
    fun content => parseRegistryContent_counted content filePath fileSize,
    fun _ _ hkey name _ htrim hlast hdata n lines =>
      readLines_unrecognised hkey name htrim hlast hdata n lines⟩

/-- A key of two values, the bytes of the second broken before each of them. -/
def sampleKey : ExportedKey :=
  { path     := "HKLM\\K]".toList
    isDelete := false
    values   :=
      [{ name := .named "a\"\\".toList, datum := .string "C:\\x".toList, layout := fun _ => none },
        { name := .default, datum := .binary [1, 255], layout := fun _ => some 2 }] }

theorem sampleKey_fits : ∀ key ∈ [sampleKey], key.Fits := by
  intro key hkey
  rw [List.mem_singleton.mp hkey]
  refine ⟨by decide, fun _ => by decide, fun value hvalue => ?_⟩
  rcases List.mem_cons.mp hvalue with rfl | hvalue
  · exact ⟨(by decide : '\n' ∉ "a\"\\".toList), (by decide : '\n' ∉ "C:\\x".toList)⟩
  · rw [List.mem_singleton.mp hvalue]
    exact ⟨trivial, trivial⟩

theorem parseRegistryContent_sample :
    (parseRegistryContent (written true [sampleKey]) [] 0).keys = readKeys 3 [sampleKey] :=
  congrArg RegistryParseResult.keys (parseRegistryContent_exact sampleKey_fits true [] 0).1

/-- Data of no known form counts as a value. -/
theorem parseRegistryContent_unrecognised :
    ¬ IsRecognised "foo".toList ∧
      (parseRegistryContent "[K]\n\"a\"=foo\n".toList [] 0).parseErrors = 0 ∧
      (parseRegistryContent "[K]\n\"a\"=foo\n".toList [] 0).keys.map (fun key =>
        key.values.map fun value => (value.kind, value.data)) =
          [[(.string, "foo".toList)]] := by
  refine ⟨?_, ?_, ?_⟩ <;> decide +kernel

end Registry
end Parser
end CmTrace
