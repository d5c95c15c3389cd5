import CmTrace.Js.Bounded
import CmTrace.Parser.Host
import CmTrace.Text.Hex
import CmTrace.Text.Lines

/-!
# Registry export files

Keys in brackets, and under each key its values, one a line.  Data in hexadecimal
bytes may go on over several lines, each but the last ending in a backslash.
-/

namespace CmTrace
namespace Parser
namespace Registry

open Text

/-! ## Keys and values -/

inductive RegistryValueKind where
  | string
  | dword
  | qword
  | binary
  | expandString
  | multiString
  | none
  | deleteMarker
  deriving DecidableEq, Repr

structure RegistryValue where
  name : Text
  kind : RegistryValueKind
  data : Text
  lineNumber : Nat
  deriving DecidableEq

structure RegistryKey where
  path : Text
  values : List RegistryValue
  lineNumber : Nat
  isDelete : Bool
  deriving DecidableEq

structure RegistryParseResult where
  keys : List RegistryKey
  filePath : Text
  fileSize : Nat
  totalKeys : Nat
  totalValues : Nat
  parseErrors : Nat
  deriving DecidableEq

/-! ## Quoted texts -/

/-- What stands before the first quote that no backslash escapes, and after it. -/
def findClosingQuote : Text → Option (Text × Text)
  | [] => none
  | '\\' :: [] => none
  | '\\' :: c :: rest => (findClosingQuote rest).map fun found => ('\\' :: c :: found.1, found.2)
  | '"' :: rest => some ([], rest)
  | c :: rest => (findClosingQuote rest).map fun found => (c :: found.1, found.2)

def unescapeRegString : Text → Text
  | [] => []
  | '\\' :: [] => []
  | '\\' :: '\\' :: rest => '\\' :: unescapeRegString rest
  | '\\' :: '"' :: rest => '"' :: unescapeRegString rest
  | '\\' :: 'n' :: rest => '\n' :: unescapeRegString rest
  | '\\' :: c :: rest => '\\' :: c :: unescapeRegString rest
  | c :: rest => c :: unescapeRegString rest

/-! ## Bytes -/

def isAsciiHexdigit (c : Char) : Bool := (digit 16 c).isSome

def parseHexByte (token : Text) : Option UInt8 :=
  let token := trim token
  if byteLen token ≠ 2 ∨ token.all isAsciiHexdigit = false then none
  else (digitsFrom 16 255 0 token).map UInt8.ofNat

def parseHexBytes (s : Text) : Option (List UInt8) :=
  if trim s = [] then some [] else (splitOn ',' s).mapM parseHexByte

def bytesToQword (bytes : List UInt8) : Nat :=
  (bytes.take 8).foldr (fun byte value => byte.toNat + 256 * value) 0

def littleEndianUnits : List UInt8 → List UInt16
  | low :: high :: rest => .ofNat (low.toNat + 256 * high.toNat) :: littleEndianUnits rest
  | _ => []

def decodeUtf16leBytes (bytes : List UInt8) : Text :=
  (Js.scalars (littleEndianUnits bytes)).rdropWhile fun c => c == '\x00'

def separator : Text := " | ".toList

def decodeUtf16leMultiString (bytes : List UInt8) : Text :=
  join separator ((((littleEndianUnits bytes).splitOn 0).filter fun s => !s.isEmpty).map Js.scalars)

def formatHexDisplay (bytes : List UInt8) : Text :=
  if bytes = [] then "(zero-length binary value)".toList
  else
    let hex := join [' '] ((bytes.take 128).map fun byte => hexLower 2 byte.toNat)
    if 128 < bytes.length then
      hex ++ " ... (".toList ++ decimal bytes.length ++ " bytes total)".toList
    else hex

/-- A number in hexadecimal digits and in decimal ones. -/
def formatNumber (width value : Nat) : Text :=
  "0x".toList ++ hexLower width value ++ " (".toList ++ decimal value ++ ")".toList

/-! ## Values -/

/-- The name of a value and what follows its equals sign. -/
def valueName (firstLine : Text) : Option (Text × Text) :=
  match firstLine with
  | '@' :: '=' :: data => some ("(Default)".toList, data)
  | '"' :: rest => do
    let found ← findClosingQuote rest
    match trimStart found.2 with
    | '=' :: data => some (unescapeRegString found.1, trimStart data)
    | _ => none
  | _ => none

/-- The data with the lines it goes on over, and the lines left; none when a
backslash ends the last line. -/
def joinContinuations (data : Text) : List Text → Option Text × List Text
  | [] => if data.getLast? = some '\\' then (none, []) else (some data, [])
  | cont :: lines =>
    if data.getLast? = some '\\' then joinContinuations (data.dropLast ++ trim cont) lines
    else (some data, cont :: lines)

def hexData (kind : RegistryValueKind) (display : List UInt8 → Option Text) (hex : Text) :
    Option (RegistryValueKind × Text) := do
  let bytes ← parseHexBytes hex
  let data ← display bytes
  return (kind, data)

/-- Bytes of a kind that is not known are kept as they are. -/
def typedHexData (typedHex : Text) : Option (RegistryValueKind × Text) := do
  let found ← splitOnce ')' typedHex
  match found.2 with
  | ':' :: hex =>
    if found.1 = [] ∨ found.1.all isAsciiHexdigit = false then none
    else hexData .none (fun bytes => some (formatHexDisplay bytes)) hex
  | _ => none

/-- What the data of a value says, by the first form it has. -/
def valueData (data : Text) : Option (RegistryValueKind × Text) :=
  if data = ['-'] then some (.deleteMarker, "(value deleted)".toList)
  else if data.head? = some '"' ∧ 2 ≤ byteLen data then do
    let found ← findClosingQuote data.tail
    if trim found.2 = [] then some (.string, unescapeRegString found.1) else none
  else
  match stripPrefix "dword:".toList data with
  | some hex =>
    let hex := trim hex
    if hex = [] ∨ 8 < byteLen hex ∨ hex.all isAsciiHexdigit = false then none
    else (digitsFrom 16 u32Max 0 hex).map fun value => (.dword, formatNumber 8 value)
  | none =>
  match stripPrefix "hex(b):".toList data with
  | some hex =>
    hexData .qword (fun bytes =>
      if bytes.length = 8 then some (formatNumber 16 (bytesToQword bytes)) else none) hex
  | none =>
  match stripPrefix "hex(2):".toList data with
  | some hex => hexData .expandString (fun bytes => some (decodeUtf16leBytes bytes)) hex
  | none =>
  match stripPrefix "hex(7):".toList data with
  | some hex => hexData .multiString (fun bytes => some (decodeUtf16leMultiString bytes)) hex
  | none =>
  match stripPrefix "hex(0):".toList data with
  | some hex => hexData .none (fun bytes => some (formatHexDisplay bytes)) hex
  | none =>
  match stripPrefix "hex:".toList data with
  | some hex => hexData .binary (fun bytes => some (formatHexDisplay bytes)) hex
  | none =>
  match stripPrefix "hex(".toList data with
  | some typedHex => typedHexData typedHex
  | none =>
    -- a form that is not recognised
    some (.string, data)

/-- The value of a line and the lines left after those it goes on over. -/
def parseValueLine (firstLine : Text) (lineNumber : Nat) (lines : List Text) :
    Option RegistryValue × List Text :=
  match valueName firstLine with
  | none => (none, lines)
  | some (name, data) =>
    let joined := joinContinuations data lines
    let value := do
      let full ← joined.1
      let said ← valueData (trim full)
      return { name := name, kind := said.1, data := said.2, lineNumber := lineNumber }
    (value, joined.2)

/-! ## Files -/

/-- `[path]`, or `[-path]` for a key that is deleted. -/
def keyLine (trimmed : Text) (lineNumber : Nat) : Option RegistryKey :=
  if trimmed.head? = some '[' ∧ trimmed.getLast? = some ']' then
    match trimmed.tail.dropLast with
    | '-' :: path => some { path := path, values := [], lineNumber := lineNumber, isDelete := true }
    | path => some { path := path, values := [], lineNumber := lineNumber, isDelete := false }
  else none

structure Scan where
  keys : List RegistryKey := []
  currentKey : Option RegistryKey := none
  parseErrors : Nat := 0
  totalValues : Nat := 0

namespace Scan

def flush (st : Scan) : List RegistryKey := st.keys ++ st.currentKey.toList

def openKey (st : Scan) (key : RegistryKey) : Scan :=
  { st with
    keys       := st.flush
    currentKey := some key }

def addValue (st : Scan) (key : RegistryKey) (value : RegistryValue) : Scan :=
  { st with
    currentKey  := some { key with values := key.values ++ [value] }
    totalValues := st.totalValues + 1 }

def fail (st : Scan) : Scan := { st with parseErrors := st.parseErrors + 1 }

end Scan

theorem length_joinContinuations (data : Text) (lines : List Text) :
    (joinContinuations data lines).2.length ≤ lines.length := by
  induction lines generalizing data with
  | nil =>
    rw [joinContinuations]
    split_ifs <;> exact Nat.le_refl _
  | cons cont lines ih =>
    rw [joinContinuations]
    split_ifs
    · exact (ih _).trans (Nat.le_succ _)
    · exact Nat.le_refl _

theorem length_parseValueLine (firstLine : Text) (lineNumber : Nat) (lines : List Text) :
    (parseValueLine firstLine lineNumber lines).2.length ≤ lines.length := by
  rw [parseValueLine]
  cases valueName firstLine with
  | none => exact Nat.le_refl _
  | some found => exact length_joinContinuations found.2 lines

/-- The lines of the keys, the first of them with its number. -/
def readLines (st : Scan) (n : Nat) (lines : List Text) : Scan :=
  match lines with
  | [] => st
  | line :: lines =>
    let trimmed := trim line
    if trimmed = [] then readLines st (n + 1) lines
    else
    match keyLine trimmed n with
    | some key => readLines (st.openKey key) (n + 1) lines
    | none =>
    match st.currentKey with
    | none => readLines st.fail (n + 1) lines
    | some key =>
      let read := parseValueLine trimmed n lines
      have := length_parseValueLine trimmed n lines
      let next := n + 1 + (lines.length - read.2.length)
      match read.1 with
      | some value => readLines (st.addValue key value) next read.2
      | none => readLines st.fail next read.2
termination_by lines.length

def isHeaderLine (trimmed : Text) : Bool :=
  (stripPrefix "Windows Registry Editor Version".toList trimmed).isSome ||
    (stripPrefix "REGEDIT4".toList trimmed).isSome || trimmed.isEmpty

/-- The lines after those at the beginning that are blank or name the format. -/
def skipHeader (n : Nat) : List Text → Nat × List Text
  | [] => (n, [])
  | line :: lines =>
    if isHeaderLine (trim line) then skipHeader (n + 1) lines else (n, line :: lines)

def parseRegistryContent (content filePath : Text) (fileSize : Nat) : RegistryParseResult :=
  let body := skipHeader 1 (lines content)
  let st := readLines {} body.1 body.2
  { keys        := st.flush
    filePath    := filePath
    fileSize    := fileSize
    totalKeys   := st.flush.length
    totalValues := st.totalValues
    parseErrors := st.parseErrors }

example : (parseRegistryContent
      "REGEDIT4\n\n[K]\n\"a\\\"b\"=hex:01,\\\n  02\n@=-\n".toList [] 0).keys =
    [{ path       := "K".toList
       values     :=
         [{ name := "a\"b".toList, kind := .binary, data := "01 02".toList, lineNumber := 4 },
           { name := "(Default)".toList, kind := .deleteMarker, data := "(value deleted)".toList
             lineNumber := 6 }]
       lineNumber := 3
       isDelete   := false }] := by
  decide +kernel

end Registry
end Parser
end CmTrace
