import CmTrace.Parser.Host
import CmTrace.Parser.Pending

/-!
# Debug logs of the name server

A summary line of a packet begins a record, and the detail lines after it
belong to it.  Lines before the first summary line are passed over.
-/

namespace CmTrace
namespace Parser

open Text Log Time

/-! ## Names -/

namespace DnsTypes

def rcodeToSeverity (rcode : Text) : Severity :=
  if rcode = "NOERROR".toList then .info
  else if rcode = "NXDOMAIN".toList then .warning
  else if ["SERVFAIL", "REFUSED", "FORMERR"].any fun known => rcode == known.toList then .error
  else .warning

/-- Cut after `n` bytes, or at the end; there is no cut inside a character. -/
def splitAtByte : Nat → Text → Option (Text × Text)
  | 0, s => some ([], s)
  | _, [] => some ([], [])
  | n, c :: s =>
    if c.utf8Size ≤ n then (splitAtByte (n - c.utf8Size) s).map fun cut => (c :: cut.1, cut.2)
    else none

/-- The labels of a name in wire format.  Every round takes a character. -/
def wireLabels : Nat → Text → List Text
  | 0, _ => []
  | _, [] => []
  | fuel + 1, '[' :: rest =>
    match splitOnce ']' rest with
    | some (_, remaining) => wireLabels fuel remaining
    | none => []
  | fuel + 1, '(' :: rest =>
    match splitOnce ')' rest with
    | some (lenStr, afterParen) =>
      match parseUnsigned 10 u64Max lenStr with
      | some len =>
        -- the root label ends the name
        if len = 0 then []
        else
          match splitAtByte len afterParen with
          | some (label, remaining) =>
            (if label = [] then [] else [label]) ++ wireLabels fuel remaining
          | none => []
      | none => []
    | none => []
  | fuel + 1, _ :: remaining => wireLabels fuel remaining

def decodeWireFormat (raw : Text) : Text :=
  let labels := wireLabels raw.length raw
  if labels = [] then if trim raw = "(0)".toList then ['.'] else []
  else join ['.'] labels

def trimDots (s : Text) : Text := (s.dropWhile (· == '.')).rdropWhile (· == '.')

/-- A name from labels with their lengths or from dotted notation. -/
def decodeQueryName (raw : Text) : Text :=
  if raw = [] then []
  else if raw.contains '(' then decodeWireFormat raw
  else trimDots raw

example : decodeQueryName "[C02B](4)dns3[C00C](4)home(3)one(0)".toList = "dns3.home.one".toList := by
  decide

end DnsTypes

/-! ## Records -/

/-- Which of the first two fields of a date is the month. -/
inductive DateOrder where
  | monthFirst
  | dayFirst
  deriving DecidableEq, Repr

namespace DnsDebug

open Regex (chain oneOf word many plus lazyPlus times dot space nonSpace hexDigit)

def packetLineRe : Regex :=
  chain [.begin, .group 1 (lazyPlus dot), plus space, .group 2 (times 4 hexDigit), plus space,
    word "PACKET".toList, plus space, .group 3 (plus hexDigit), plus space,
    .group 4 (oneOf [word "UDP".toList, word "TCP".toList]), plus space,
    .group 5 (oneOf [word "Snd".toList, word "Rcv".toList]), plus space, .group 6 (plus nonSpace),
    plus space, .group 7 (times 4 hexDigit), plus space,
    .group 8 (oneOf [.seq (word ['R']) (plus space), .empty]),
    .group 9 (.char fun c => "QNU?".toList.contains c), plus space, word ['['],
    .group 10 (plus (.char fun c => c != ']')), word [']'], plus space, .group 11 (plus nonSpace),
    plus space, .group 12 (many dot), .stop]

def detailPortRe (host : Host) : Regex :=
  chain [word "Remote addr".toList, plus space, plus nonSpace, word [','], plus space,
    word "port".toList, plus space, .group 1 (plus host.decimalNumber)]

/-- The flags in hexadecimal and the response code inside brackets. -/
def parseFlagsRcode (s : Text) : Text × Text :=
  match splitWhitespace s with
  | [] => ([], "UNKNOWN".toList)
  | flags :: parts => (flags, (flags :: parts).getLastD [])

/-- `s` without the occurrences of `needle`, from the left. -/
def remove (needle : Text) : Nat → Text → Text
  | 0, s => s
  | _, [] => []
  | fuel + 1, c :: s =>
    if needle.isPrefixOf (c :: s) then remove needle fuel ((c :: s).drop needle.length)
    else c :: remove needle fuel s

def orZero (n : Option Nat) : Nat := n.getD 0

def displayReading (year : Int) (month day hour minute second : Nat) : Text :=
  paddedInt 4 year ++ '-' :: padded 2 month ++ '-' :: padded 2 day ++ ' ' :: padded 2 hour ++
    ':' :: padded 2 minute ++ ':' :: padded 2 second

/-- Epoch and display of a reading in universal time. -/
def reading (year : Int) (month day hour minute second : Nat) : Option Int × Option Text :=
  (((NaiveDate.fromYmd year month day).bind fun date =>
    date.andHms hour minute second).map NaiveDateTime.utcMillis,
    some (displayReading year month day hour minute second))

def parseIsoTimestamp (s : Text) : Option Int × Option Text :=
  let year := (parseI32 (s.take 4)).getD 0
  let month := orZero (parseU32 ((s.drop 4).take 2))
  let day := orZero (parseU32 ((s.drop 6).take 2))
  match splitOn ':' (s.drop 9) with
  | hour :: minute :: second :: _ =>
    reading year month day (orZero (parseU32 hour)) (orZero (parseU32 minute))
      (orZero (parseU32 second))
  | _ => (none, some s)

/-- A time of twelve or of twenty-four hours.  The sum of hours wraps. -/
def parseTimeComponent (host : Host) (s : Text) : Nat × Nat × Nat :=
  let upper := host.toUppercase (trim s)
  let isPm := contains upper "PM".toList
  let isAm := contains upper "AM".toList
  let withoutAm := remove "AM".toList upper.length upper
  let timeOnly := trim (remove "PM".toList withoutAm.length withoutAm)
  match splitOn ':' timeOnly with
  | hour :: minute :: second :: _ =>
    let hour := orZero (parseU32 (trim hour))
    let hour :=
      if isPm && hour != 12 then (hour + 12) % 2 ^ 32
      else if isAm && hour == 12 then 0
      else hour
    (hour, orZero (parseU32 (trim minute)), orZero (parseU32 (trim second)))
  | _ => (0, 0, 0)

def parseDnsTimestamp (host : Host) (s : Text) (dateOrder : DateOrder) :
    Option Int × Option Text :=
  let trimmed := trim s
  if 15 ≤ byteLen trimmed ∧ (trimmed.take 8).all isAsciiDigit ∧ trimmed[8]? = some ' ' then
    parseIsoTimestamp trimmed
  else
    match splitOnce ' ' trimmed with
    | some (datePart, timePart) =>
      match splitOn '/' datePart with
      | [first, second, year] =>
        let field1 := orZero (parseU32 first)
        let field2 := orZero (parseU32 second)
        let year := (parseI32 year).getD 0
        let (month, day) :=
          match dateOrder with
          | .monthFirst => (field1, field2)
          | .dayFirst => (field2, field1)
        let (hour, minute, second) := parseTimeComponent host timePart
        reading year month day hour minute second
      | _ => (none, some trimmed)
    | none => (none, some trimmed)

def parsePacketLine (host : Host) (line filePath : Text) (dateOrder : DateOrder) :
    Option LogEntry := do
  let caps ← packetLineRe.captures line
  let timestampStr ← caps.group 1
  let threadHex ← caps.group 2
  let protocol ← caps.group 4
  let direction ← caps.group 5
  let remoteIp ← caps.group 6
  let flagsRcode ← caps.group 10
  let queryTypeStr ← caps.group 11
  let queryNameRaw ← caps.group 12
  let threadVal := orZero (parseUnsigned 16 u32Max threadHex)
  let (flagsHex, rcode) := parseFlagsRcode flagsRcode
  let queryName := DnsTypes.decodeQueryName (trim queryNameRaw)
  let (timestamp, timestampDisplay) := parseDnsTimestamp host (trim timestampStr) dateOrder
  return {
    message          := '[' :: direction ++ "] [".toList ++ protocol ++ "] ".toList ++ queryName ++
      " (".toList ++ trim queryTypeStr ++ ") → ".toList ++ rcode
    timestamp        := timestamp
    timestampDisplay := timestampDisplay
    severity         := DnsTypes.rcodeToSeverity rcode
    thread           := some threadVal
    threadDisplay    := some (decimal threadVal ++ " (0x".toList ++ threadHex ++ [')'])
    format           := .dnsDebug
    filePath         := filePath
    queryName        := if queryName = [] then none else some queryName
    queryType        := some (trim queryTypeStr)
    responseCode     := some rcode
    dnsDirection     := some direction
    dnsProtocol      := some protocol
    sourceIp         := some (trim remoteIp)
    dnsFlags         := some ("0x".toList ++ flagsHex) }

/-- A detail line added to a record: its port, if it names one, and its text. -/
def addDetail (host : Host) (entry : LogEntry) (line : Text) : LogEntry :=
  let port := ((detailPortRe host).captures line).bind fun caps => caps.group 1
  let sourceIp :=
    match port, entry.sourceIp with
    | some port, some ip => if ip.contains ':' then some ip else some (ip ++ ':' :: port)
    | _, ip => ip
  appendMessage { entry with sourceIp := sourceIp } line

/-- A line that names a packet and is no summary line. -/
def isUnreadPacket (host : Host) (filePath : Text) (dateOrder : DateOrder) (line : Text) : Bool :=
  (parsePacketLine host (trim line) filePath dateOrder).isNone &&
    contains (trim line) "PACKET".toList

def readLine (host : Host) (filePath : Text) (dateOrder : DateOrder) (st : RecordState)
    (lineNumber : Nat) (line : Text) : RecordState :=
  let trimmed := trim line
  if trimmed = [] then st
  else
    match parsePacketLine host trimmed filePath dateOrder with
    | some entry =>
      { st.flushPending with pending := some { entry := entry, startLine := lineNumber } }
    | none =>
      let st := if contains trimmed "PACKET".toList
        then { st with parseErrors := st.parseErrors + 1 } else st
      match st.pending with
      | some pending =>
        { st with pending := some { pending with entry := addDetail host pending.entry trimmed } }
      | none => st

def parseLines (host : Host) (filePath : Text) (dateOrder : DateOrder) (lines : List Text) :
    List LogEntry × Nat :=
  let st := (readLines (readLine host filePath dateOrder) {} 1 lines).flushPending
  (st.entries, st.parseErrors)

example : (parseLines .ascii [] .monthFirst ["Log file wrap:".toList,
    ("4/11/2026 3:29:17 PM 0294 PACKET  000002DAEC36D650 UDP Rcv 127.0.0.1       d07e   Q " ++
      "[0001   D   NOERROR] SOA    (4)home(4)gell(3)one(0)").toList,
    "  Remote addr 127.0.0.1, port 54159".toList]).1.map
      (fun entry => (entry.message, entry.timestampDisplay, entry.sourceIp)) =
      [("[Rcv] [UDP] home.gell.one (SOA) → NOERROR\nRemote addr 127.0.0.1, port 54159".toList,
        some "2026-04-11 15:29:17".toList, some "127.0.0.1:54159".toList)] := by
  decide +kernel

/-! ## The records of a log -/

def grammar (host : Host) (filePath : Text) (dateOrder : DateOrder) :
    Framing.Grammar Text (LogEntry × Bool) :=
  { role   := fun line =>
      if trim line = [] then .blank
      else
        match parsePacketLine host (trim line) filePath dateOrder with
        | some entry => .opens (entry, false)
        | none => .body
    extend := fun r line => (addDetail host r.1 (trim line), r.2)
    orphan := fun _ => none }

section Refinement

variable {β : Type} {view : LogEntry → β} (hview : ∀ entry id, view (entry.withId id) = view entry)
  (host : Host) (filePath : Text) (dateOrder : DateOrder)

include hview

theorem readLine_step (st : RecordState) (n : Nat) (line : Text) :
    let st' := readLine host filePath dateOrder st n line
    let step := (grammar host filePath dateOrder).step st.held n line
    st'.entries.map view = st.entries.map view ++ shown Prod.fst view step.1 ∧
      st'.held = step.2 := by
  obtain ⟨hentries, _, _⟩ := flushPending_spec hview st
  intro st' step
  simp only [st', step, readLine, Framing.Grammar.step, grammar]
  by_cases hb : trim line = []
  · simp [hb]
  · simp only [hb, if_false]
    cases parsePacketLine host (trim line) filePath dateOrder with
    | some entry => exact ⟨hentries, rfl⟩
    | none =>
      -- the count of errors is no part of the rows
      cases hc : contains (trim line) "PACKET".toList <;>
        cases hpending : st.pending <;> simp [RecordState.held, hpending]

theorem parseLines_rows (lines : List Text) :
    (parseLines host filePath dateOrder lines).1.map view =
      shown Prod.fst view ((grammar host filePath dateOrder).rows none 1 lines) := by
  have hrows := readLines_rows hview (readLine_step hview host filePath dateOrder) lines {} 1
  exact hrows.trans (List.nil_append _)

end Refinement

theorem readLine_errors (host : Host) (filePath : Text) (dateOrder : DateOrder) (st : RecordState)
    (n : Nat) (line : Text) :
    (readLine host filePath dateOrder st n line).parseErrors =
      st.parseErrors + if isUnreadPacket host filePath dateOrder line then 1 else 0 := by
  rw [readLine, isUnreadPacket]
  by_cases hb : trim line = []
  · simp [hb, contains]
  · obtain hp | ⟨entry, hp⟩ :=
      Option.eq_none_or_eq_some (parsePacketLine host (trim line) filePath dateOrder)
    · cases hc : contains (trim line) "PACKET".toList <;>
        cases hpending : st.pending <;> simp [hb, hp, hpending]
    · cases hpending : st.pending <;> simp [hb, hp, RecordState.flushPending, hpending]

theorem parseLines_errors (host : Host) (filePath : Text) (dateOrder : DateOrder)
    (lines : List Text) :
    (parseLines host filePath dateOrder lines).2 =
      lines.countP (isUnreadPacket host filePath dateOrder) := by
  have hall : ∀ (lines : List Text) (st : RecordState) (n : Nat),
      (readLines (readLine host filePath dateOrder) st n lines).flushPending.parseErrors =
        st.parseErrors + lines.countP (isUnreadPacket host filePath dateOrder) := by
    intro lines
    induction lines with
    | nil =>
      intro st n
      cases hpending : st.pending <;> simp [readLines, RecordState.flushPending, hpending]
    | cons line lines ih =>
      intro st n
      rw [readLines, ih, readLine_errors, List.countP_cons]
      omega
  exact (hall lines {} 1).trans (Nat.zero_add _)

end DnsDebug
end Parser
end CmTrace
