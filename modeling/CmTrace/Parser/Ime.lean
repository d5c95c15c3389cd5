import CmTrace.Parser.Ccm
import CmTrace.Parser.CcmScan

/-!
# Records of the management extension log

A record is an opener, a message and attributes up to a closing bracket.  What stands
between records is kept line by line as fragments; a content without records is read as
plain lines.  Every reading stops at a number of entries.
-/

namespace CmTrace
namespace Parser

open Text Log Time

/-- What the records take from outside: the local zone and the calendar library. -/
structure ImeHost extends Host where
  localMinusUtcMinutesAt : NaiveDateTime → Option Int
  /-- The offset of the moment. -/
  localMinusUtcMinutes : Int
  /-- The instant of a reading on the local clock, the earlier one when it names two. -/
  fromLocalDatetime : NaiveDateTime → Option Int
  toRfc3339Millis : Int → Text
  parseFallbackTimestampUtc : Text → Option Text

namespace Ime

open Ccm

def recordStart : Text := "<![LOG[".toList

def attrsStart : Text := "]LOG]!><".toList

def maxImeRecordBytes : Nat := 1024 * 1024

def boundedPrefix (text : Text) (limit : Nat) : Text :=
  let head := takeBytes limit text
  -- a cap does not take the carriage return of a line end
  if byteLen head = maxImeRecordBytes ∧ head.getLast? = some '\r' then head.dropLast else head

/-- What precedes the first occurrence of a needle, and the text from there. -/
def findText (needle : Text) : Text → Option (Text × Text)
  | [] => none
  | c :: s =>
    if needle.isPrefixOf (c :: s) then some ([], c :: s)
    else (findText needle s).map fun found => (c :: found.1, found.2)

/-! ## Attributes -/

structure ParsedImeAttrs where
  component : Option Text := none
  sourceFile : Option Text := none
  thread : Option Nat := none
  typeValue : Option Nat := none
  date : Option Text := none
  time : Option Text := none
  deriving DecidableEq, Repr

def isNameChar (c : Char) : Bool := c.isAlphanum || c == '_'

def isAsciiWhitespace (c : Char) : Bool :=
  c == ' ' || c == '\t' || c == '\n' || c == '\x0c' || c == '\r'

/-- What precedes the first closing bracket that is not quoted. -/
def attributesEnd : Bool → Text → Option Text
  | _, [] => none
  | quoted, c :: s =>
    if c = '"' then (attributesEnd (!quoted) s).map (c :: ·)
    else if c = '>' ∧ quoted = false then some []
    else (attributesEnd quoted s).map (c :: ·)

def attributesRe : Regex :=
  .chain [.begin, .many .space, .many (.chain [.plus (.char isNameChar), .word ['=', '"'],
    .many (.anyBut '"'), .word ['"'], .many .space])]

def validAttributes (attrs : Text) : Bool := (Regex.seq attributesRe .stop).isMatch attrs

/-- The valid attributes that a closing bracket follows. -/
def validAttributesEnd (text : Text) : Option Text :=
  ((Regex.seq attributesRe (.word ['>'])).captures text).map fun caps => caps.taken.dropLast

def parseAsciiU32 (value : Text) : Option Nat :=
  if value = [] then none else digitsFrom 10 u32Max 0 value

def toI32 (n : Int) : Int := Int.bmod n (2 ^ 32)

def parseAsciiI32 (value : Text) : Option Int :=
  match value with
  | [] => none
  | '+' :: digits => (parseAsciiU32 digits).map fun n => toI32 n
  | '-' :: digits => (parseAsciiU32 digits).bind fun n =>
    if toI32 n = -(2 ^ 31) then none else some (-toI32 n)
  | digits => (parseAsciiU32 digits).map fun n => toI32 n

def matchAttribute (parsed : ParsedImeAttrs) (key value : Text) : ParsedImeAttrs :=
  if eqIgnoreAsciiCase key "component".toList then { parsed with component := some value }
  else if eqIgnoreAsciiCase key "file".toList then { parsed with sourceFile := some value }
  else if eqIgnoreAsciiCase key "thread".toList then { parsed with thread := parseAsciiU32 value }
  else if eqIgnoreAsciiCase key "type".toList then { parsed with typeValue := parseAsciiU32 value }
  else if eqIgnoreAsciiCase key "date".toList then { parsed with date := some value }
  else if eqIgnoreAsciiCase key "time".toList then { parsed with time := some value }
  else parsed

def parseAttributesFrom : Nat → Text → ParsedImeAttrs → ParsedImeAttrs
  | 0, _, parsed => parsed
  | fuel + 1, attrs, parsed =>
    match attrs.dropWhile isAsciiWhitespace with
    | [] => parsed
    | c :: rest =>
      let after := (c :: rest).dropWhile isNameChar
      if isNameChar c = false then parseAttributesFrom fuel rest parsed
      else match after with
        | '=' :: '"' :: quoted =>
          match quoted.dropWhile fun d => d != '"' with
          | [] => parsed
          | _ :: more => parseAttributesFrom fuel more (matchAttribute parsed
              ((c :: rest).takeWhile isNameChar) (quoted.takeWhile fun d => d != '"'))
        | _ => parseAttributesFrom fuel (after.dropWhile fun d => !isAsciiWhitespace d) parsed

def parseAttributes (attrs : Text) : ParsedImeAttrs :=
  parseAttributesFrom (attrs.length + 1) attrs {}

/-! ## Timestamps -/

def parseDate (date : Text) : Option (Nat × Nat × Int) := do
  let (month, remainder) ← splitOnce '-' date
  let (day, year) ← splitOnce '-' remainder
  pure (← parseAsciiU32 month, ← parseAsciiU32 day, ← parseAsciiI32 year)

def isSign (c : Char) : Bool := c == '+' || c == '-'

/-- The time before its offset, whose sign is not the first character. -/
def splitTimezone : Text → Text × Option Text
  | [] => ([], none)
  | c :: rest =>
    match rest.dropWhile fun d => !isSign d with
    | [] => (c :: rest, none)
    | zone => (c :: rest.takeWhile fun d => !isSign d, some zone)

def truncateFractionToMillis (value : Text) : Option Nat :=
  if value.all isAsciiDigit then
    digitsFrom 10 u32Max 0 (value.take 3 ++ List.replicate (3 - value.length) '0')
  else none

def parseTimezoneOffset (value : Text) : Option Int :=
  if eqIgnoreAsciiCase value ['z'] then some 0
  else if ':' ∈ value then
    let sign : Int := if value.head? = some '-' then -1 else 1
    (splitOnce ':' (value.dropWhile isSign)).bind fun parts => do
      let hours ← parseAsciiI32 parts.1
      let minutes ← parseAsciiI32 parts.2
      pure (toI32 (sign * (hours * 60 + minutes)))
  else parseAsciiI32 value

def parseTime (time : Text) : Option (Nat × Nat × Nat × Nat × Option Int) := do
  let (timeValue, timezoneValue) := splitTimezone time
  let (hour, remainder) ← splitOnce ':' timeValue
  let (minute, secondAndFraction) ← splitOnce ':' remainder
  let (second, fraction) := (splitOnce '.' secondAndFraction).getD (secondAndFraction, [])
  let millis ← if fraction = [] then some 0 else truncateFractionToMillis fraction
  pure (← parseAsciiU32 hour, ← parseAsciiU32 minute, ← parseAsciiU32 second, millis,
    timezoneValue.bind parseTimezoneOffset)

structure TimestampFields where
  millis : Option Int := none
  display : Option Text := none
  timezoneOffset : Option Int := none
  utc : Option Text := none
  deriving DecidableEq, Repr

section

variable (host : ImeHost)

def buildUtcTimestamp (month day : Nat) (year : Int) (hour minute second millis : Nat)
    (timezoneOffset : Option Int) : Option Text :=
  ((NaiveDate.fromYmd year month day).bind fun date =>
    date.andHmsMilli hour minute second millis).map fun naive =>
      host.toRfc3339Millis <| match timezoneOffset with
        | some offset => naiveToUtcMillis naive (some offset)
        | none => (host.fromLocalDatetime naive).getD naive.utcMillis

def parseTimestampFields (date time : Option Text) : TimestampFields :=
  match date.bind parseDate, time.bind parseTime with
  | some (month, day, year), some (hour, minute, second, millis, timezoneOffset) =>
    let naive := (NaiveDate.fromYmd year month day).bind fun date =>
      date.andHmsMilli hour minute second millis
    -- a record without an offset is read on the local clock
    let effective := timezoneOffset.getD <|
      (naive.bind host.localMinusUtcMinutesAt).getD host.localMinusUtcMinutes
    let built := buildTimestamp month day year hour minute second millis (some effective)
    { millis         := built.1
      display        := built.2
      timezoneOffset := timezoneOffset
      utc            := buildUtcTimestamp host month day year hour minute second millis
        timezoneOffset }
  | _, _ => {}

/-! ## The end of a record -/

inductive RecordBoundary where
  | complete (length : Nat)
  | interrupted (next : Nat)
  | capped (length : Nat)
  | incomplete
  deriving DecidableEq, Repr

/-- Whether a record with attributes and a timestamp begins with an opener. -/
def isIndependent (opened : Text) : Bool :=
  let message := opened.drop recordStart.length
  -- the attributes begin before the next opener
  let range := ((findText recordStart message).map Prod.fst).getD message
  match findText attrsStart range with
  | none => false
  | some (before, _) =>
    match validAttributesEnd (message.drop (before.length + attrsStart.length)) with
    | none => false
    | some values =>
      let parsed := parseAttributes values
      (parseTimestampFields host parsed.date parsed.time).millis.isSome

/-- Where the record ends that a text begins with. -/
def recordBoundary (tail : Text) : RecordBoundary :=
  let bounded := boundedPrefix tail maxImeRecordBytes
  let unclosed : RecordBoundary :=
    if maxImeRecordBytes ≤ byteLen tail then .capped bounded.length else .incomplete
  if bounded.length < recordStart.length then .incomplete
  else
    match findText attrsStart (bounded.drop recordStart.length) with
    | none => unclosed
    | some (message, closing) =>
      let attrs := closing.drop attrsStart.length
      let start := recordStart.length + message.length + attrsStart.length
      let outer := (attributesEnd false attrs).filter fun values =>
        validAttributes values || !contains (values ++ ['>']) recordStart
      match outer with
      | some values => .complete (start + values.length + 1)
      | none =>
        -- an attribute that is not closed does not take a record that follows
        match (attrs.tails.filter recordStart.isPrefixOf).find? (isIndependent host) with
        | some opened => .interrupted (bounded.length - opened.length)
        | none => unclosed

end

end Ime
end Parser
end CmTrace
