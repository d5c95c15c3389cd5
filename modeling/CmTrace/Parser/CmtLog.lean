import CmTrace.Parser.Ccm
import CmTrace.Parser.LineByLine

/-!
# Sectioned script logs

A section line gives its name and colour to the rows after it.
-/

namespace CmTrace
namespace Parser
namespace CmtLog

open Text Log Carried
open Regex (chain oneOf word many plus lazyMany between opt space anyChar anyBut asciiDigit)

def headerComponent : Text := "__HEADER__".toList

def sectionComponent : Text := "__SECTION__".toList

def iterationComponent : Text := "__ITERATION__".toList

def attrRe (host : Host) : Regex :=
  chain [.group 1 (plus host.wordChar), word "=\"".toList, .group 2 (many (anyBut '"')), word ['"']]

def cmtlogRe : Regex :=
  let number := fun n low high => Regex.group n (between low high asciiDigit)
  chain [word "<![LOG[".toList, .group 1 (lazyMany anyChar), word "]LOG]!><time=\"".toList,
    number 2 1 2, word [':'], number 3 1 2, word [':'], number 4 1 2, word ['.'],
    .group 5 (plus asciiDigit),
    opt (.group 6 (.seq (.char fun c => c == '+' || c == '-') (plus asciiDigit))), word ['"'],
    plus space, word "date=\"".toList, number 7 1 2, word ['-'], number 8 1 2, word ['-'],
    number 9 4 4, word ['"'], plus space, word "component=\"".toList,
    .group 10 (many (anyBut '"')), word ['"'], plus space, word "context=\"".toList,
    many (anyBut '"'), word ['"'], plus space, word "type=\"".toList, .group 11 asciiDigit,
    word ['"'], plus space, word "thread=\"".toList, .group 12 (plus asciiDigit), word ['"'],
    many (anyBut '>'), word ['>']]

structure ExtractedAttrs where
  sectionName : Option Text := none
  color : Option Text := none
  tag : Option Text := none
  whatif : Option Text := none
  iteration : Option Text := none

/-- The last value of each attribute of the format. -/
def extractAttrs (host : Host) (line : Text) : ExtractedAttrs :=
  ((attrRe host).capturesIter line).foldl (fun attrs caps =>
    let key := (caps.group 1).getD []
    let value := (caps.group 2).getD []
    if key = "section".toList then { attrs with sectionName := some value }
    else if key = "color".toList then { attrs with color := some value }
    else if key = "tag".toList then { attrs with tag := some value }
    else if key = "whatif".toList then { attrs with whatif := some value }
    else if key = "iteration".toList then { attrs with iteration := some value }
    else attrs) {}

def parseCmtlogLine (filePath line : Text) : Option LogEntry := do
  let caps ← cmtlogRe.captures line
  let number := fun n default => ((caps.group n).bind parseU32).getD default
  let message ← caps.group 1
  let thread := number 12 0
  let millis ← (caps.group 5).bind Ccm.truncateSubsecondToMillis
  let tzOffset := ((caps.group 6).bind parseI32).getD 0
  let year := ((caps.group 9).bind parseI32).getD 2000
  let reading := Ccm.buildTimestamp (number 7 1) (number 8 1) year (number 2 0) (number 3 0)
    (number 4 0) millis (some tzOffset)
  return {
    message          := message
    component        := caps.group 10
    timestamp        := reading.1
    timestampDisplay := reading.2
    severity         := Ccm.severityFromTypeField ((caps.group 11).bind parseU32) message
    thread           := some thread
    threadDisplay    := some (Ccm.formatThreadDisplay thread)
    format           := .cmtLog
    filePath         := filePath
    timezoneOffset   := some tzOffset }

def plainEntry (filePath line : Text) : LogEntry :=
  { message  := line
    severity := detectSeverityFromText line
    format   := .cmtLog
    filePath := filePath }

/-- Name and colour of the section in force. -/
structure SectionContext where
  name : Option Text := none
  color : Option Text := none
  deriving DecidableEq

def readTags (tag : Text) : List Text := ((splitOn ',' tag).map trim).filter fun t => !t.isEmpty

/-- A row placed in the section in force, and the section after it. -/
def place (context : SectionContext) (attrs : ExtractedAttrs) (entry : LogEntry) :
    LogEntry × SectionContext :=
  let component := entry.component.getD []
  if component = headerComponent then ({ entry with entryKind := some .header }, context)
  else if component = sectionComponent then
    ({ entry with
       entryKind    := some .section
       sectionName  := some entry.message
       sectionColor := attrs.color },
      { name := some entry.message, color := attrs.color })
  else if component = iterationComponent then
    ({ entry with
       entryKind    := some .iteration
       iteration    := attrs.iteration
       sectionColor := attrs.color.or context.color
       sectionName  := context.name }, context)
  else
    ({ entry with
       entryKind    := some .log
       sectionName  := attrs.sectionName.or context.name
       sectionColor := context.color
       whatif       := attrs.whatif.map fun v => v == ['1']
       iteration    := attrs.iteration
       tags         := attrs.tag.map readTags }, context)

def baseEntry (filePath line : Text) : LogEntry :=
  (parseCmtlogLine filePath line).getD (plainEntry filePath line)

def reader (host : Host) (filePath : Text) : LineReader SectionContext :=
  { initial := {}
    read    := fun context line =>
      if trim line = [] then (none, context)
      else
        let placed := place context (extractAttrs host line) (baseEntry filePath line)
        (some (placed.1, (parseCmtlogLine filePath line).isNone), placed.2) }

def parseLines (host : Host) (filePath : Text) : List Text → List LogEntry × Nat :=
  parseWith (reader host filePath)

example : (parseLines .ascii [] [
    ("<![LOG[Scan]LOG]!><time=\"10:32:01.000+000\" date=\"04-13-2026\" component=\"__SECTION__\" " ++
      "context=\"\" type=\"1\" thread=\"0\" file=\"\" color=\"#5b9aff\">").toList,
    "loose".toList]).1.map (fun entry => (entry.message, entry.sectionName, entry.sectionColor)) =
      [("Scan".toList, some "Scan".toList, some "#5b9aff".toList),
        ("loose".toList, some "Scan".toList, some "#5b9aff".toList)] := by
  decide +kernel

/-! ## Rows that take after the section in force -/

def isSection (filePath line : Text) : Bool :=
  !(trim line).isEmpty && (baseEntry filePath line).component.getD [] == sectionComponent

/-- The row of a line shows the name or the colour in force. -/
def inherits (host : Host) (filePath : Text) (context : SectionContext) (line : Text) : Bool :=
  let attrs := extractAttrs host line
  let component := (baseEntry filePath line).component.getD []
  if trim line = [] ∨ component = headerComponent then false
  else if component = iterationComponent then
    context.name.isSome || (attrs.color.isNone && context.color.isSome)
  else (attrs.sectionName.isNone && context.name.isSome) || context.color.isSome

section

variable (host : Host) (filePath : Text)

theorem read_section {line : Text} (h : isSection filePath line = true) (context : SectionContext) :
    (reader host filePath).read context line = (reader host filePath).read {} line := by
  rw [isSection, Bool.and_eq_true, beq_iff_eq] at h
  obtain ⟨hnil, hcomponent⟩ := h
  have hne : trim line ≠ [] := by simpa using hnil
  simp only [reader, if_neg hne, place, hcomponent]
  rfl

theorem read_context {line : Text} (h : isSection filePath line = false) (context : SectionContext) :
    ((reader host filePath).read context line).2 = context := by
  simp only [reader, place]
  split_ifs with hne hheader hsection hiteration
  · rfl
  · rfl
  · simp [isSection, hne, hsection] at h
  · rfl
  · rfl

/-- A row that takes nothing after the section is the same in none; one that
does says something else. -/
theorem read_inherits {line : Text} (h : isSection filePath line = false)
    (context : SectionContext) :
    if inherits host filePath context line = true then
      ((reader host filePath).read context line).1.map rowContent ≠
        ((reader host filePath).read {} line).1.map rowContent
    else ((reader host filePath).read context line).1 =
      ((reader host filePath).read {} line).1 := by
  rw [isSection] at h
  simp only [inherits, reader, place]
  generalize extractAttrs host line = attrs
  generalize baseEntry filePath line = entry at h ⊢
  by_cases hnil : trim line = []
  · simp [hnil]
  · by_cases hheader : entry.component.getD [] = headerComponent
    · simp [hnil, hheader]
    · have hsection : ¬ entry.component.getD [] = sectionComponent := by
        simpa [hnil] using h
      obtain ⟨name, color⟩ := context
      by_cases hiteration : entry.component.getD [] = iterationComponent
      · have hih : iterationComponent ≠ headerComponent := by decide
        have his : iterationComponent ≠ sectionComponent := by decide
        simp only [hnil, hiteration, hih, his, if_true, if_false, or_self]
        cases name <;> cases color <;> cases attrs.color <;>
          simp [rowContent, rowColumns, LogEntry.atLine]
      · simp only [hnil, hheader, hsection, hiteration, if_false, or_self]
        cases name <;> cases color <;> cases attrs.sectionName <;>
          simp [rowContent, rowColumns, LogEntry.atLine]

theorem reader_resets :
    Reader.Resets (reader host filePath) rowContent (isSection filePath)
      (inherits host filePath) :=
  { reset   := fun h context => read_section host filePath h context
    keeps   := fun h context => read_context host filePath h context
    same    := fun {line context} h hneeds => by
      have hread := read_inherits host filePath h context
      rwa [if_neg (by rw [hneeds]; exact Bool.false_ne_true)] at hread
    differs := fun {line context} h hneeds => by
      have hread := read_inherits host filePath h context
      rwa [if_pos hneeds] at hread }

end

end CmtLog
end Parser
end CmTrace
