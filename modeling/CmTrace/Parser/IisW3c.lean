import CmTrace.Parser.LineByLine

/-!
# Web server logs

A `#Fields:` line names the columns of the rows after it.
-/

namespace CmTrace
namespace Parser
namespace IisW3c

open Text Log Carried

def isPattern (length : Nat) (separators : List Nat) (separator : Char) (value : Text) : Bool :=
  value.length == length && value.zipIdx.all fun ci =>
    if separators.contains ci.2 then ci.1 == separator else isAsciiDigit ci.1

def isW3cDate (value : Text) : Bool := isPattern 10 [4, 7] '-' value

def isW3cTime (value : Text) : Bool := isPattern 8 [2, 5] ':' value

def matchesIisW3cRecord (line : Text) : Bool :=
  let trimmed := trim line
  if trimmed.isEmpty || trimmed.head? == some '#' then false
  else
    match splitWhitespace trimmed with
    | date :: time :: _ => isW3cDate date && isW3cTime time
    | _ => false

def parseW3cDatetime (host : Host) (date time : Option Text) : Option Int × Option Text :=
  match date, time with
  | some date, some time =>
    ((host.parseFromStr (date ++ ' ' :: time)).map Time.NaiveDateTime.utcMillis,
      some (date ++ ' ' :: time))
  | _, _ => (none, none)

def normalizeField (value : Text) : Option Text :=
  let trimmed := trim value
  if trimmed = [] ∨ trimmed = ['-'] then none else some trimmed

/-- A number of a column, of a type whose largest value is `limit`. -/
def parseOptional (limit : Nat) (value : Option Text) : Option Nat :=
  (value.bind normalizeField).bind (parseUnsigned 10 limit)

def severityFromStatus (statusCode : Option Nat) : Severity :=
  let code := statusCode.getD 0
  if 400 ≤ code ∧ code ≤ 499 then .warning
  else if 500 ≤ code ∧ code ≤ 599 then .error
  else .info

def malformedEntry (line filePath : Text) : LogEntry :=
  { message  := line
    severity := .info
    format   := .timestamped
    filePath := filePath }

def valueFor (fields values : List Text) (token : Text) : Option Text :=
  (fields.findIdx? (· == token)).bind fun idx => values[idx]?

def readRow (host : Host) (filePath : Text) (fields values : List Text) : LogEntry :=
  let valueFor := fun token : String => valueFor fields values token.toList
  let textFor := fun token => normalizeField ((valueFor token).getD [])
  let reading := parseW3cDatetime host (valueFor "date") (valueFor "time")
  let httpMethod := textFor "cs-method"
  let uriStem := textFor "cs-uri-stem"
  let uriQuery := textFor "cs-uri-query"
  let statusCode := parseOptional u16Max (valueFor "sc-status")
  let uriDisplay :=
    match uriStem, uriQuery with
    | some stem, some query => stem ++ '?' :: query
    | some stem, none => stem
    | _, _ => ['-']
  { message          := httpMethod.getD ['-'] ++ ' ' :: uriDisplay ++ " → ".toList ++
      (statusCode.map decimal).getD ['-']
    timestamp        := reading.1
    timestampDisplay := reading.2
    severity         := severityFromStatus statusCode
    format           := .timestamped
    filePath         := filePath
    httpMethod       := httpMethod
    uriStem          := uriStem
    uriQuery         := uriQuery
    statusCode       := statusCode
    subStatus        := parseOptional u16Max (valueFor "sc-substatus")
    timeTakenMs      := parseOptional u64Max (valueFor "time-taken")
    clientIp         := textFor "c-ip"
    serverIp         := textFor "s-ip"
    userAgent        := (textFor "cs(User-Agent)").map fun agent =>
      agent.map fun c => if c = '+' then ' ' else c
    serverPort       := parseOptional u16Max (valueFor "s-port")
    username         := textFor "cs-username"
    win32Status      := parseOptional u32Max (valueFor "sc-win32-status") }

def declares (line : Text) : Option (List Text) :=
  (stripPrefix "#Fields:".toList (trim line)).map splitWhitespace

/-- The reader of lines; its context is the columns in force. -/
def reader (host : Host) (filePath : Text) : LineReader (List Text) :=
  { initial := []
    read    := fun fields line =>
      let trimmed := trim line
      if trimmed = [] then (none, fields)
      else
        match declares line with
        | some fields => (none, fields)
        | none =>
          if trimmed.head? = some '#' then (none, fields)
          else if !matchesIisW3cRecord trimmed || fields.isEmpty then
            (some (malformedEntry trimmed filePath, true), fields)
          else
            let values := splitWhitespace trimmed
            if values.length < fields.length then
              (some (malformedEntry trimmed filePath, true), fields)
            else (some (readRow host filePath fields values, false), fields) }

def parseLines (host : Host) (filePath : Text) : List Text → List LogEntry × Nat :=
  parseWith (reader host filePath)

example : (parseLines .ascii [] ["#Fields: date time cs-method cs-uri-stem sc-status".toList,
    "2026-03-29 18:48:23 GET /default.htm 200".toList, "2026-03-29 18:48:23 GET".toList]).1.map
      (fun entry => (entry.message, entry.timestamp, entry.lineNumber)) =
      [("GET /default.htm → 200".toList, some 1774810103000, 2),
        ("2026-03-29 18:48:23 GET".toList, none, 3)] := by
  decide +kernel

/-! ## Rows that need the columns in force -/

/-- A row that is read with the columns in force. -/
def needsColumns (fields : List Text) (line : Text) : Bool :=
  matchesIisW3cRecord (trim line) && !fields.isEmpty &&
    decide (fields.length ≤ (splitWhitespace (trim line)).length)

theorem not_matches_dash (rest : Text) : matchesIisW3cRecord ('-' :: ' ' :: rest) = false := by
  obtain ⟨trimmed, hend⟩ : trim ('-' :: ' ' :: rest) <+: '-' :: ' ' :: rest :=
    List.rdropWhile_prefix _ _
  rw [matchesIisW3cRecord]
  cases ht : trim ('-' :: ' ' :: rest) with
  | nil => rfl
  | cons c s =>
    rw [ht] at hend
    obtain ⟨hc, htail⟩ := List.cons.inj hend
    subst hc
    cases s with
    | nil => rfl
    | cons d s =>
      have hd : d = ' ' := (List.cons.inj htail).1
      subst hd
      have hwords : splitWhitespace ('-' :: ' ' :: s) = ['-'] :: splitWhitespaceFrom [] s := rfl
      rw [hwords]
      cases splitWhitespaceFrom [] s <;> rfl

theorem readRow_ne_malformed (host : Host) (filePath : Text) (fields values : List Text)
    {trimmed : Text} (h : matchesIisW3cRecord trimmed = true) (a b : Bool) :
    rowContent (readRow host filePath fields values, a) ≠
      rowContent (malformedEntry trimmed filePath, b) := by
  intro heq
  have hmethod : (readRow host filePath fields values).httpMethod = none :=
    congrArg LogEntry.httpMethod heq
  have hmessage : (readRow host filePath fields values).message = trimmed :=
    congrArg LogEntry.message heq
  rw [← hmessage] at h
  simp only [readRow] at hmethod h
  rw [hmethod] at h
  exact Bool.false_ne_true ((not_matches_dash _).symm.trans h)

section

variable (host : Host) (filePath : Text)

theorem read_declares {line : Text} {fields' : List Text} (h : declares line = some fields')
    (fields : List Text) : (reader host filePath).read fields line = (none, fields') := by
  have hne : trim line ≠ [] := by
    intro hnil
    rw [declares, hnil] at h
    cases h
  simp only [reader, if_neg hne, h]

theorem row_of_matches {line : Text} (h : matchesIisW3cRecord (trim line) = true) :
    trim line ≠ [] ∧ (trim line).head? ≠ some '#' := by
  rw [matchesIisW3cRecord, trim_trim] at h
  constructor
  · intro hnil
    simp [hnil] at h
  · intro hcomment
    simp [hcomment] at h

theorem read_context {line : Text} (h : declares line = none) (fields : List Text) :
    ((reader host filePath).read fields line).2 = fields := by
  simp only [reader, h]
  split_ifs <;> rfl

theorem read_needs {fields : List Text} {line : Text} (h : declares line = none)
    (hneeds : needsColumns fields line = true) :
    ((reader host filePath).read fields line).1 =
        some (readRow host filePath fields (splitWhitespace (trim line)), false) ∧
      ((reader host filePath).read [] line).1 = some (malformedEntry (trim line) filePath, true) := by
  rw [needsColumns, Bool.and_eq_true, Bool.and_eq_true, decide_eq_true_eq] at hneeds
  obtain ⟨⟨hmatches, hfields⟩, hlen⟩ := hneeds
  obtain ⟨hnil, hcomment⟩ := row_of_matches hmatches
  have hempty : fields ≠ [] := by simpa using hfields
  have hlen' : ¬ (splitWhitespace (trim line)).length < fields.length := Nat.not_lt.mpr hlen
  refine ⟨?_, ?_⟩
  · simp [reader, h, hnil, hcomment, hmatches, hempty, hlen']
  · simp [reader, h, hnil, hcomment]

theorem read_unneeded {fields : List Text} {line : Text} (h : declares line = none)
    (hneeds : needsColumns fields line = false) :
    ((reader host filePath).read fields line).1 = ((reader host filePath).read [] line).1 := by
  simp only [reader, h]
  by_cases hnil : trim line = []
  · simp [hnil]
  · by_cases hcomment : (trim line).head? = some '#'
    · simp [hnil, hcomment]
    · by_cases hrow : (!matchesIisW3cRecord (trim line) || fields.isEmpty) = true
      · simp [hnil, hcomment, hrow]
      · have hmatches : matchesIisW3cRecord (trim line) = true := by
          cases hm : matchesIisW3cRecord (trim line) <;> simp [hm] at hrow ⊢
        have hempty : fields.isEmpty = false := by
          cases he : fields.isEmpty <;> simp [he] at hrow ⊢
        have hlen : (splitWhitespace (trim line)).length < fields.length := by
          rw [needsColumns, hmatches, hempty] at hneeds
          simpa using hneeds
        simp [hnil, hcomment, hmatches, hempty, hlen]

def isDeclaration (line : Text) : Bool := (declares line).isSome

theorem reader_resets :
    Reader.Resets (reader host filePath) rowContent isDeclaration needsColumns := by
  have hnone : ∀ {line : Text}, isDeclaration line = false → declares line = none :=
    fun h => Option.isSome_eq_false_iff.mp h |> Option.isNone_iff_eq_none.mp
  refine ⟨fun h fields => ?_, fun h fields => read_context host filePath (hnone h) fields,
    fun h hneeds => read_unneeded host filePath (hnone h) hneeds, fun h hneeds => ?_⟩
  · obtain ⟨fields', hd⟩ := Option.isSome_iff_exists.mp h
    rw [read_declares host filePath hd, read_declares host filePath hd]
  · obtain ⟨hwith, hwithout⟩ := read_needs host filePath (hnone h) hneeds
    have hmatches := (Bool.and_eq_true_iff.mp (Bool.and_eq_true_iff.mp hneeds).1).1
    intro heq
    rw [hwith, show (reader host filePath).initial = [] from rfl, hwithout] at heq
    exact readRow_ne_malformed host filePath _ _ hmatches _ _ (Option.some.inj heq)

end

end IisW3c
end Parser
end CmTrace
