import CmTrace.Codec.Utf
import CmTrace.Text.ByteOrder
import CmTrace.Text.Number

/-!
# Texts of installer evidence

Command lines, paths of log files, identifiers and messages as the correlation of
installers compares them.  Nothing here is read from the host.
-/

namespace CmTrace
namespace Esp

open Text

/-- A text without the characters given, at both ends. -/
def trimMatches (cs : List Char) (s : Text) : Text :=
  (s.dropWhile fun c => cs.contains c).rdropWhile fun c => cs.contains c

def quotes : List Char := ['"', '\'']

def nonemptyPath (value : Text) : Option Text :=
  let value := trimMatches quotes (trim value)
  if value = [] then none else some value

/-! ## Command lines -/

/-- The arguments left, with the one under way. -/
def splitArgumentsFrom (quoted : Bool) (current : Text) : Text → List Text
  | []                  => if current = [] then [] else [current]
  | '\\' :: '"' :: rest => splitArgumentsFrom quoted (current ++ ['"']) rest
  | c :: rest           =>
    if c = '"' then splitArgumentsFrom (!quoted) (current ++ [c]) rest
    else if isWhitespace c && !quoted then
      if current = [] then splitArgumentsFrom quoted [] rest
      else current :: splitArgumentsFrom quoted [] rest
    else splitArgumentsFrom quoted (current ++ [c]) rest

def splitWindowsArguments (commandLine : Text) : List Text :=
  splitArgumentsFrom false [] commandLine

/-- What may stand between a switch and a path written at it. -/
def switchMarks : List Char := ['=', ':', '"', '\'']

/-- The letters of a switch that asks for a log. -/
def isLogSwitch : Text → Bool
  | []              => false
  | first :: others =>
    first.toLower == 'l' && others.all fun c => "*iwearucmopvx+!".toList.contains c.toLower

/-- A switch that asks for a log, with the path that is written at it. -/
def parseLogSwitch : Text → Option (Option Text)
  | []            => none
  | mark :: value =>
    if mark ≠ '/' ∧ mark ≠ '-' then none
    else
      let lower := toAsciiLowercase value
      if lower = "log".toList then some none
      else if "log=".toList.isPrefixOf lower || "log:".toList.isPrefixOf lower then
        some (some (value.drop 4))
      else
        let switch := value.takeWhile fun c => !switchMarks.contains c
        let attached := match value.drop switch.length with
          | []        => none
          | c :: path => some (if c = '"' ∨ c = '\'' then c :: path else path)
        if isLogSwitch switch then some attached else none

/-- The path at the first switch that asks for a log, or after it. -/
def logPathAmong : List Text → Option Text
  | []               => none
  | argument :: rest =>
    match parseLogSwitch argument with
    | some (some path) => nonemptyPath path
    | some none        => rest.head?.bind nonemptyPath
    | none             => logPathAmong rest

def extractInstallerLogPath (commandLine : Text) : Option Text :=
  logPathAmong (splitWindowsArguments commandLine)

/-- The arguments left, with the one under way if one has begun, or none where the quotes would
need the full rules. -/
def commandArgumentsFrom (quoted started : Bool) (previous : Option Char) (current : Text) :
    Text → Option (List Text)
  | []        => if quoted then none else some (if started then [current] else [])
  | c :: rest =>
    if c = '"' then
      if previous = some '\\' ∨ rest.head? = some '"' then none
      else commandArgumentsFrom (!quoted) true (some c) current rest
    else if (c = ' ' ∨ c = '\t') ∧ quoted = false then
      if started then
        (commandArgumentsFrom quoted false (some c) [] rest).map fun more => current :: more
      else commandArgumentsFrom quoted started (some c) current rest
    else commandArgumentsFrom quoted true (some c) (current ++ [c]) rest

def canonicalCommandArguments (commandLine : Text) : Option (List Text) :=
  commandArgumentsFrom false false none [] commandLine

/-! ## Paths -/

/-- A path without the mark of a literal path; a device has none. -/
def stripLiteralMark (value : Text) : Option Text :=
  if eqIgnoreAsciiCase (value.take 8) "\\\\?\\UNC\\".toList then
    some ("\\\\".toList ++ value.drop 8)
  else if eqIgnoreAsciiCase (value.take 4) "\\\\?\\".toList then some (value.drop 4)
  else if "\\\\.\\".toList.isPrefixOf value then none
  else some value

def isUnc (value : Text) : Bool := "\\\\".toList.isPrefixOf value

def isDriveAbsolute : Text → Bool
  | drive :: ':' :: _ => decide (drive.toNat < 128)
  | _                 => false

/-- How many components no parent step goes below. -/
def minimumDepth (value : Text) : Nat :=
  if isUnc value then 2 else if isDriveAbsolute value then 1 else 0

/-- The next component of a path after those before it. -/
def pushComponent (minimumDepth : Nat) (parts : List Text) (component : Text) :
    Option (List Text) :=
  if component = [] ∨ component = ['.'] then some parts
  else if component = ['.', '.'] then
    if parts.length ≤ minimumDepth then none else some parts.dropLast
  else
    let component := component.rdropWhile fun c => c == ' ' || c == '.'
    if component = [] then none else some (parts ++ [toAsciiLowercase component])

def canonicalInstallerLogPath (path : Text) : Option Text :=
  let value := (trimMatches quotes (trim path)).map fun c => if c = '/' then '\\' else c
  if value = [] ∨ value.contains '\x00' then none
  else
    (stripLiteralMark value).bind fun value =>
      ((splitOn '\\' value).foldlM (pushComponent (minimumDepth value)) []).bind fun parts =>
        if parts = [] then none
        else if isUnc value then some ("\\\\".toList ++ join ['\\'] parts)
        else some (join ['\\'] parts)

def stripSuffix (ending s : Text) : Text :=
  if ending.isSuffixOf s then s.take (s.length - ending.length) else s

def normalizedExecutableName (executable : Text) : Text :=
  let value := trimMatches quotes (trim executable)
  stripSuffix ".exe".toList
    (toAsciiLowercase (value.rtakeWhile fun c => c != '\\' && c != '/'))

/-! ## Identifiers -/

def maxPercentDecodeInputBytes : Nat := 4096

def hexNibble (byte : UInt8) : Option UInt8 :=
  let b := byte.toNat
  if 48 ≤ b ∧ b ≤ 57 then some (byte - 48)
  else if 97 ≤ b ∧ b ≤ 102 then some (byte - 97 + 10)
  else if 65 ≤ b ∧ b ≤ 70 then some (byte - 65 + 10)
  else none

/-- Bytes with their escapes undone; an escape has two digits. -/
def percentDecode : List UInt8 → Option (List UInt8)
  | []                   => some []
  | 37 :: high :: low :: rest =>
    (hexNibble high).bind fun high => (hexNibble low).bind fun low =>
      (percentDecode rest).map fun more => (high <<< 4 ||| low) :: more
  | byte :: rest         =>
    if byte = 37 then none else (percentDecode rest).map fun more => byte :: more

/-- The bytes of a text with its escapes undone, where they are a text again. -/
def percentDecodeBounded (input : Text) : Option (List UInt8) :=
  if maxPercentDecodeInputBytes < byteLen input then none
  else
    (percentDecode (utf8Bytes input)).bind fun bytes =>
      if (Codec.utf8.decode bytes).any fun r => r.2.isEmpty then some bytes else none

def isHexDigitByte (byte : UInt8) : Bool := (hexNibble byte).isSome

def isGuidWindow (window : List UInt8) : Bool :=
  window.zipIdx.all fun r =>
    if r.2 = 8 ∨ r.2 = 13 ∨ r.2 = 18 ∨ r.2 = 23 then r.1 == 45 || r.1 == 95
    else isHexDigitByte r.1

def guidText (window : List UInt8) : Text :=
  window.map fun byte => if byte = 95 then '-' else (Char.ofNat byte.toNat).toLower

/-- The first window of bytes that is written as an identifier. -/
def extractGuid (input : Text) : Option Text :=
  (percentDecodeBounded input).bind fun bytes =>
    ((bytes.tails.filter fun tail => decide (36 ≤ tail.length)).map (List.take 36)).find?
      isGuidWindow |>.map guidText

def normalizedIdentifiers (value : Text) : List Text :=
  let trimmed := toAsciiLowercase (trimMatches ['{', '}', '"', '\''] (trim value))
  (if trimmed = [] then [] else [trimmed]) ++ (extractGuid value).toList

def hasNormalizedIdentifier (value : Text) : Bool := !(normalizedIdentifiers value).isEmpty

/-! ## Messages -/

def alphanumericWords (message : Text) : List Text :=
  (message.splitOnP fun c => !isAsciiAlphanumeric c).filter fun word => !word.isEmpty

/-- The words begin with the mention of a process. -/
def mentionsFirst (target : Text) : List Text → Bool
  | word :: next :: rest =>
    (eqIgnoreAsciiCase word "pid".toList || eqIgnoreAsciiCase word "process".toList ||
        eqIgnoreAsciiCase word "processid".toList) && next == target ||
      eqIgnoreAsciiCase word "process".toList && eqIgnoreAsciiCase next "id".toList &&
        rest.head? == some target
  | _                    => false

def messageMentionsPid (message : Text) (pid : Nat) : Bool :=
  (alphanumericWords message).tails.any (mentionsFirst (decimal pid))

/-- A component of a key, with the separator escaped. -/
def escapeComponent (value : Text) : Text :=
  value.flatMap fun c =>
    if c = '%' then "%25".toList else if c = '|' then "%7C".toList else [c]

example : canonicalInstallerLogPath "\"C:/Temp/./Logs/../Setup.LOG \"".toList =
    some "c:\\temp\\setup.log".toList := by
  decide +kernel

example : extractInstallerLogPath "msiexec /i a.msi /L*V \"C:\\x y.log\" /qn".toList =
    some "C:\\x y.log".toList := by
  decide +kernel

example : normalizedIdentifiers "{AAAAAAAA-0000-0000-0000-00000000000F}".toList =
    ["aaaaaaaa-0000-0000-0000-00000000000f".toList,
      "aaaaaaaa-0000-0000-0000-00000000000f".toList] := by
  decide +kernel

end Esp
end CmTrace
