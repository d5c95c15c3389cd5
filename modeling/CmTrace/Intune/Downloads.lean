import CmTrace.Collections.InsertionMap
import CmTrace.Intune.Timeline
import CmTrace.Parser.ImeScan

/-!
# Download attempts

Open attempts are kept in a map by content id.  Every line that ends an attempt yields
one statistic, with figures from the lines of that id since the line that ended the one
before, and nothing is left to yield when the lines are over.
-/

namespace CmTrace
namespace Intune

open Text Collections
open CmTrace.Parser (contains)
open CmTrace.Parser.Ime (ImeLine)
open Timeline (rsplitOnce)

variable {F : Type}

/-! ## Data -/

/-- What a line says of a download; `F` are the floating point numbers. -/
structure DownloadLineAnalysis (F : Type) where
  contentId : Option Text := none
  displayName : Option Text := none
  sizeBytes : Option Nat := none
  speedBps : Option F := none
  doPercentage : Option F := none
  durationSecs : Option F := none
  suppressRegistryEnrichment : Bool := false
  isRetry : Bool := false
  isStart : Bool := false
  isProgress : Bool := false
  isComplete : Bool := false
  isFailed : Bool := false
  isStall : Bool := false

structure PartialDownload (F : Type) where
  contentId : Option Text
  displayName : Option Text
  startTime : Option Text
  lastTimestamp : Option Text := none
  sizeBytes : Option Nat := none
  speedBps : Option F := none
  doPercentage : Option F := none
  durationSecs : Option F := none
  suppressRegistryEnrichment : Bool
  sawProgress : Bool := false
  sawFailureSignal : Bool := false
  sawRetrySignal : Bool := false

structure DownloadStat (F : Type) where
  contentId : Text
  name : Text
  sizeBytes : Nat
  speedBps : F
  doPercentage : F
  durationSecs : F
  success : Bool
  timestamp : Option Text
  timestampEpoch : Option Int

inductive DownloadSourceKind where
  | primaryIme
  | appWorkload
  | unsupported
  deriving DecidableEq, Repr

/-- The classification of a line, the names of the registry, the platform's file name
and the numbers. -/
structure DownloadHost (F : Type) where
  analyze : Text → Option (DownloadLineAnalysis F)
  resolve : Text → Option Text
  fileName : Text → Option Text
  readers : TimeReaders
  zero : F

/-- The order in which a map yields its entries. -/
structure IterationOrder (A : Type) where
  visit : List A → List A
  perm : ∀ entries, (visit entries).Perm entries

/-! ## Attempts -/

def unknownId : Text := "unknown".toList

def shortId (id : Text) : Text := "Download (".toList ++ id ++ ")".toList

def isFallbackName (name : Text) : Bool :=
  "Download (".toList.isPrefixOf name || "Download:".toList.isPrefixOf name

def PartialDownload.new (contentId displayName startTime : Option Text)
    (suppressRegistryEnrichment : Bool) : PartialDownload F :=
  { contentId                  := contentId
    displayName                := displayName
    startTime                  := startTime
    suppressRegistryEnrichment := suppressRegistryEnrichment }

def applyDownloadAnalysis (download : PartialDownload F) (analysis : DownloadLineAnalysis F)
    (timestamp : Option Text) : PartialDownload F :=
  { startTime                  := download.startTime.or timestamp
    lastTimestamp              := timestamp
    contentId                  :=
      if download.contentId.isNone || download.contentId == some unknownId then
        analysis.contentId.or download.contentId
      else download.contentId
    displayName                := download.displayName.or analysis.displayName
    suppressRegistryEnrichment :=
      download.suppressRegistryEnrichment || analysis.suppressRegistryEnrichment
    sawProgress                := download.sawProgress || analysis.isProgress
    sawFailureSignal           :=
      download.sawFailureSignal || (analysis.isFailed || analysis.isStall)
    sawRetrySignal             := download.sawRetrySignal || analysis.isRetry
    sizeBytes                  := analysis.sizeBytes.or download.sizeBytes
    speedBps                   := analysis.speedBps.or download.speedBps
    doPercentage               := analysis.doPercentage.or download.doPercentage
    durationSecs               := analysis.durationSecs.or download.durationSecs }

section

variable (host : DownloadHost F)

def resolvedName (download : PartialDownload F) (contentId : Text) : Text :=
  let rawName := download.displayName.getD (shortId contentId)
  if isFallbackName rawName && !download.suppressRegistryEnrichment then
    (host.resolve contentId).getD rawName
  else rawName

def statOf (download : PartialDownload F) (contentId : Text) (success : Bool)
    (timestamp : Option Text) : DownloadStat F :=
  { contentId      := contentId
    name           := resolvedName host download contentId
    sizeBytes      := download.sizeBytes.getD 0
    speedBps       := download.speedBps.getD host.zero
    doPercentage   := download.doPercentage.getD host.zero
    durationSecs   := download.durationSecs.getD host.zero
    success        := success
    timestamp      := timestamp
    timestampEpoch := (timestamp.bind (parseTimestamp host.readers)).map timestampMillis }

def finalizeDownload (open? : Option (PartialDownload F)) (contentId displayName : Option Text)
    (analysis : DownloadLineAnalysis F) (timestamp : Option Text) (success : Bool) :
    Option (DownloadStat F) :=
  let opened := open?.getD
    (.new contentId displayName timestamp analysis.suppressRegistryEnrichment)
  let applied := applyDownloadAnalysis opened analysis timestamp
  let closed := { applied with displayName := applied.displayName.or displayName }
  let resolvedContentId := (contentId.or closed.contentId).getD unknownId
  if !success && !closed.sawFailureSignal && !closed.sawRetrySignal && !analysis.isStall then none
  else
    some (statOf host closed resolvedContentId success
      ((timestamp.or closed.lastTimestamp).or closed.startTime))

structure Extraction (F : Type) where
  downloads : List (DownloadStat F) := []
  active : InsertionMap Text (PartialDownload F) := ∅

namespace Extraction

def close (s : Extraction F) (contentId : Text) (analysis : DownloadLineAnalysis F)
    (timestamp : Option Text) (success : Bool) : Extraction F :=
  { downloads := s.downloads ++ (finalizeDownload host (s.active.get? contentId) (some contentId)
      analysis.displayName analysis timestamp success).toList
    active    := s.active.delete contentId }

/-- The attempt at `contentId` is opened where it is not yet, and takes the line in. -/
def advance (s : Extraction F) (contentId : Text) (analysis : DownloadLineAnalysis F)
    (timestamp : Option Text) : Extraction F :=
  let entry := (s.active.get? contentId).getD
    (.new (some contentId) analysis.displayName timestamp analysis.suppressRegistryEnrichment)
  { s with active := s.active.set contentId (applyDownloadAnalysis entry analysis timestamp) }

def step (s : Extraction F) (analysis : DownloadLineAnalysis F) (timestamp : Option Text) :
    Extraction F :=
  let contentId := analysis.contentId.getD unknownId
  if analysis.isRetry then
    let inherited := (s.active.get? contentId).any PartialDownload.suppressRegistryEnrichment
    let closed := s.close host contentId analysis timestamp false
    { closed with
      active := closed.active.set contentId (.new (some contentId) analysis.displayName timestamp
        (inherited || analysis.suppressRegistryEnrichment)) }
  else
    let s :=
      if analysis.isStart || analysis.isProgress then s.advance contentId analysis timestamp else s
    if analysis.isComplete then s.close host contentId analysis timestamp true
    else if analysis.isFailed || analysis.isStall then
      s.close host contentId analysis timestamp false
    else s

def readLine (s : Extraction F) (line : ImeLine) : Extraction F :=
  match host.analyze line.message with
  | some analysis => s.step host analysis (line.timestampUtc.or line.timestamp)
  | none => s

def leftover (download : PartialDownload F) : Option (DownloadStat F) :=
  if download.sawFailureSignal || download.sawRetrySignal then
    some (statOf host download (download.contentId.getD unknownId) false
      (download.lastTimestamp.or download.startTime))
  else none

end Extraction

def classifyDownloadSource (sourceFile : Text) : DownloadSourceKind :=
  let fileName := toAsciiLowercase ((host.fileName sourceFile).getD sourceFile)
  if contains fileName "appworkload".toList then .appWorkload
  else if contains fileName "intunemanagementextension".toList then .primaryIme
  else .unsupported

def extractDownloads (order : IterationOrder (Text × PartialDownload F)) (lines : List ImeLine)
    (sourceFile : Text) : List (DownloadStat F) :=
  if classifyDownloadSource host sourceFile = .unsupported then []
  else
    let s := lines.foldl (Extraction.readLine host) {}
    s.downloads ++
      ((order.visit s.active.entries).map Prod.snd).filterMap (Extraction.leftover host)

end

/-! ## What is expected -/

namespace DownloadLineAnalysis

def bucket (analysis : DownloadLineAnalysis F) : Text := analysis.contentId.getD unknownId

def ends (analysis : DownloadLineAnalysis F) : Bool :=
  analysis.isRetry || analysis.isComplete || analysis.isFailed || analysis.isStall

def completes (analysis : DownloadLineAnalysis F) : Bool :=
  !analysis.isRetry && analysis.isComplete

def contributes (analysis : DownloadLineAnalysis F) : Bool :=
  analysis.isStart || analysis.isProgress

end DownloadLineAnalysis

def openLines (id : Text) (before : List (DownloadLineAnalysis F)) :
    List (DownloadLineAnalysis F) :=
  ((before.filter fun analysis => analysis.bucket == id).reverse.takeWhile
    fun analysis => !analysis.ends).reverse

def told (id : Text) (before : List (DownloadLineAnalysis F)) : List (DownloadLineAnalysis F) :=
  (openLines id before).filter DownloadLineAnalysis.contributes

def lastReported {B : Type} (field : DownloadLineAnalysis F → Option B)
    (lines : List (DownloadLineAnalysis F)) : Option B := (lines.filterMap field).getLast?

/-- The statistic of the attempt that `analysis` ends after the lines `before`. -/
structure Reports (zero : F) (before : List (DownloadLineAnalysis F))
    (analysis : DownloadLineAnalysis F) (stat : DownloadStat F) : Prop where
  contentId : stat.contentId = analysis.bucket
  success : stat.success = analysis.completes
  sizeBytes : stat.sizeBytes =
    (lastReported (·.sizeBytes) (told analysis.bucket before ++ [analysis])).getD 0
  speedBps : stat.speedBps =
    (lastReported (·.speedBps) (told analysis.bucket before ++ [analysis])).getD zero
  doPercentage : stat.doPercentage =
    (lastReported (·.doPercentage) (told analysis.bucket before ++ [analysis])).getD zero
  durationSecs : stat.durationSecs =
    (lastReported (·.durationSecs) (told analysis.bucket before ++ [analysis])).getD zero

/-- One statistic for each line that ends an attempt, in the order of the lines. -/
structure Accounts (zero : F) (lines : List (DownloadLineAnalysis F))
    (stats : List (DownloadStat F)) : Prop where
  length : stats.length = lines.countP DownloadLineAnalysis.ends
  reports : ∀ before analysis after, lines = before ++ analysis :: after →
    analysis.ends = true → ∃ stat, stats[before.countP DownloadLineAnalysis.ends]? = some stat ∧
      Reports zero before analysis stat

def downloadLines (host : DownloadHost F) (lines : List ImeLine) : List (DownloadLineAnalysis F) :=
  lines.filterMap fun line => host.analyze line.message

/-! ## Lines of an attempt -/

section

variable {before : List (DownloadLineAnalysis F)} {analysis : DownloadLineAnalysis F}

theorem openLines_snoc_of_ne {id : Text} (h : analysis.bucket ≠ id) :
    openLines id (before ++ [analysis]) = openLines id before := by
  rw [openLines, List.filter_append, List.filter_cons_of_neg (by rwa [beq_iff_eq]),
    List.filter_nil, List.append_nil, openLines]

theorem openLines_snoc :
    openLines analysis.bucket (before ++ [analysis]) =
      if analysis.ends then [] else openLines analysis.bucket before ++ [analysis] := by
  have hself : [analysis].filter (fun line => line.bucket == analysis.bucket) = [analysis] :=
    List.filter_cons_of_pos (beq_self_eq_true _)
  rw [openLines, List.filter_append, hself, List.reverse_append, List.reverse_singleton,
    List.singleton_append, List.takeWhile_cons]
  cases analysis.ends with
  | true => rfl
  | false =>
    simp only [Bool.not_false, if_true, List.reverse_cons, openLines, Bool.false_eq_true, if_false]

theorem told_snoc_of_ne {id : Text} (h : analysis.bucket ≠ id) :
    told id (before ++ [analysis]) = told id before := by
  rw [told, openLines_snoc_of_ne h, told]

theorem told_snoc_of_ends (h : analysis.ends = true) :
    told analysis.bucket (before ++ [analysis]) = [] := by
  rw [told, openLines_snoc, if_pos h, List.filter_nil]

theorem told_snoc_of_open (h : analysis.ends = false) :
    told analysis.bucket (before ++ [analysis]) =
      told analysis.bucket before ++ if analysis.contributes then [analysis] else [] := by
  rw [told, openLines_snoc, if_neg (Bool.eq_false_iff.mp h), List.filter_append, told,
    List.filter_cons, List.filter_nil]

theorem lastReported_snoc {B : Type} (field : DownloadLineAnalysis F → Option B)
    (lines : List (DownloadLineAnalysis F)) (analysis : DownloadLineAnalysis F) :
    lastReported field (lines ++ [analysis]) = (field analysis).or (lastReported field lines) := by
  rw [lastReported, List.filterMap_append, lastReported]
  cases h : field analysis with
  | none => rw [List.filterMap_cons_none h, List.filterMap_nil, List.append_nil, Option.none_or]
  | some value =>
    rw [List.filterMap_cons_some h, List.filterMap_nil, List.getLast?_concat, Option.some_or]

end

/-! ## Figures -/

/-- A figure that lines report and attempts keep. -/
structure Figure (F B : Type) where
  read : DownloadLineAnalysis F → Option B
  kept : PartialDownload F → Option B
  new : ∀ contentId displayName startTime suppress,
    kept (.new contentId displayName startTime suppress) = none
  apply : ∀ download analysis timestamp,
    kept (applyDownloadAnalysis download analysis timestamp) = (read analysis).or (kept download)
  named : ∀ download displayName, kept { download with displayName := displayName } = kept download

namespace Figure

def size : Figure F Nat :=
  ⟨(·.sizeBytes), (·.sizeBytes), fun _ _ _ _ => rfl, fun _ _ _ => rfl, fun _ _ => rfl⟩

def speed : Figure F F :=
  ⟨(·.speedBps), (·.speedBps), fun _ _ _ _ => rfl, fun _ _ _ => rfl, fun _ _ => rfl⟩

def percentage : Figure F F :=
  ⟨(·.doPercentage), (·.doPercentage), fun _ _ _ _ => rfl, fun _ _ _ => rfl, fun _ _ => rfl⟩

def duration : Figure F F :=
  ⟨(·.durationSecs), (·.durationSecs), fun _ _ _ _ => rfl, fun _ _ _ => rfl, fun _ _ => rfl⟩

variable {B : Type} (figure : Figure F B)

theorem kept_getD_new (open? : Option (PartialDownload F)) (contentId displayName startTime)
    (suppress : Bool) :
    figure.kept (open?.getD (.new contentId displayName startTime suppress)) =
      open?.bind figure.kept := by
  cases open? with
  | none => exact figure.new contentId displayName startTime suppress
  | some download => rfl

end Figure

theorem finalizeDownload_eq (host : DownloadHost F) (open? : Option (PartialDownload F))
    (id : Text) (analysis : DownloadLineAnalysis F) (timestamp : Option Text) {success : Bool}
    (h : success = true ∨ analysis.isRetry = true ∨ analysis.isFailed = true ∨
      analysis.isStall = true) :
    ∃ closed timestamp', finalizeDownload host open? (some id) analysis.displayName analysis
        timestamp success = some (statOf host closed id success timestamp') ∧
      ∀ {B : Type} (figure : Figure F B), figure.kept closed =
        (figure.read analysis).or (open?.bind figure.kept) := by
  have hsignal : ∀ download : PartialDownload F,
      ¬ ((!success && !(applyDownloadAnalysis download analysis timestamp).sawFailureSignal &&
        !(applyDownloadAnalysis download analysis timestamp).sawRetrySignal &&
        !analysis.isStall) = true) := by
    intro download
    rcases h with h | h | h | h <;> simp [applyDownloadAnalysis, h]
  unfold finalizeDownload
  dsimp only
  rw [if_neg (hsignal _), Option.some_or, Option.getD_some]
  refine ⟨_, _, rfl, fun figure => ?_⟩
  rw [figure.named, figure.apply, figure.kept_getD_new]

/-! ## One line -/

namespace Extraction

variable {host : DownloadHost F} {s : Extraction F} {before : List (DownloadLineAnalysis F)}

/-- What is open and what was yielded after the lines `before`. -/
structure Tracks (host : DownloadHost F) (before : List (DownloadLineAnalysis F))
    (s : Extraction F) : Prop where
  accounts : Accounts host.zero before s.downloads
  figures : ∀ {B : Type} (figure : Figure F B) (id : Text),
    (s.active.get? id).bind figure.kept = lastReported figure.read (told id before)
  quiet : ∀ {id : Text} {download : PartialDownload F}, s.active.get? id = some download →
    download.sawFailureSignal = false ∧ download.sawRetrySignal = false

theorem tracks_start : Tracks host [] {} where
  accounts := by
    refine ⟨rfl, fun before analysis after h => ?_⟩
    cases before <;> cases h
  figures _ _ := rfl
  quiet h := nomatch h

theorem split_snoc {A : Type} {before pre post : List A} {a x : A}
    (h : before ++ [a] = pre ++ x :: post) :
    (post = [] ∧ pre = before ∧ x = a) ∨ ∃ post', before = pre ++ x :: post' := by
  rcases List.eq_nil_or_concat post with rfl | ⟨post', last, rfl⟩
  · obtain ⟨hpre, hx⟩ := List.append_inj' h rfl
    exact .inl ⟨rfl, hpre.symm, (List.singleton_inj.mp hx).symm⟩
  · rw [List.concat_eq_append, ← List.cons_append, ← List.append_assoc] at h
    exact .inr ⟨post', (List.append_inj' h rfl).1⟩

theorem accounts_snoc_of_open {zero : F} {stats : List (DownloadStat F)}
    {analysis : DownloadLineAnalysis F} (h : Accounts zero before stats)
    (hends : analysis.ends = false) : Accounts zero (before ++ [analysis]) stats := by
  refine ⟨?_, fun pre line post heq hline => ?_⟩
  · rw [h.length, List.countP_append, List.countP_cons_of_neg (Bool.eq_false_iff.mp hends),
      List.countP_nil, Nat.add_zero]
  · rcases split_snoc heq with ⟨-, -, rfl⟩ | ⟨post', hbefore⟩
    · rw [hends] at hline
      cases hline
    · exact h.reports pre line post' hbefore hline

theorem accounts_snoc_of_ends {zero : F} {stats : List (DownloadStat F)} {stat : DownloadStat F}
    {analysis : DownloadLineAnalysis F} (h : Accounts zero before stats)
    (hends : analysis.ends = true) (hstat : Reports zero before analysis stat) :
    Accounts zero (before ++ [analysis]) (stats ++ [stat]) := by
  refine ⟨?_, fun pre line post heq hline => ?_⟩
  · rw [List.length_append, h.length, List.countP_append, List.countP_cons_of_pos hends,
      List.countP_nil, List.length_singleton]
  · rcases split_snoc heq with ⟨-, rfl, rfl⟩ | ⟨post', hbefore⟩
    · refine ⟨stat, ?_, hstat⟩
      rw [← h.length, List.getElem?_concat_length]
    · obtain ⟨earlier, hearlier, hreports⟩ := h.reports pre line post' hbefore hline
      refine ⟨earlier, ?_, hreports⟩
      rw [List.getElem?_append_left (List.getElem?_eq_some_iff.mp hearlier).1, hearlier]

theorem reports_statOf {analysis : DownloadLineAnalysis F} {closed : PartialDownload F}
    (timestamp : Option Text)
    (h : ∀ {B : Type} (figure : Figure F B), figure.kept closed =
      (figure.read analysis).or (lastReported figure.read (told analysis.bucket before))) :
    Reports host.zero before analysis
      (statOf host closed analysis.bucket analysis.completes timestamp) where
  contentId := rfl
  success := rfl
  sizeBytes := by rw [lastReported_snoc]; exact congrArg (Option.getD · 0) (h .size)
  speedBps := by rw [lastReported_snoc]; exact congrArg (Option.getD · _) (h .speed)
  doPercentage := by rw [lastReported_snoc]; exact congrArg (Option.getD · _) (h .percentage)
  durationSecs := by rw [lastReported_snoc]; exact congrArg (Option.getD · _) (h .duration)

/-- A line that ends an attempt yields it and empties its place, also where the attempt
took the line in before. -/
theorem Tracks.close {analysis : DownloadLineAnalysis F} {s' : Extraction F}
    (h : Tracks host before s) (timestamp : Option Text) (hdownloads : s'.downloads = s.downloads)
    (hother : ∀ id, id ≠ analysis.bucket → s'.active.get? id = s.active.get? id)
    (hfigure : ∀ {B : Type} (figure : Figure F B),
      (figure.read analysis).or ((s'.active.get? analysis.bucket).bind figure.kept) =
        (figure.read analysis).or ((s.active.get? analysis.bucket).bind figure.kept))
    (hends : analysis.completes = true ∨ analysis.isRetry = true ∨ analysis.isFailed = true ∨
      analysis.isStall = true) :
    Tracks host (before ++ [analysis])
      (s'.close host analysis.bucket analysis timestamp analysis.completes) := by
  have hline : analysis.ends = true := by
    rw [DownloadLineAnalysis.ends]
    rcases hends with hends | hends | hends | hends
    · rw [DownloadLineAnalysis.completes, Bool.and_eq_true] at hends
      rw [hends.2, Bool.or_true]
      rfl
    · rw [hends]
      rfl
    · rw [hends, Bool.or_true]
      rfl
    · rw [hends, Bool.or_true]
  obtain ⟨closed, timestamp', hfinal, hkept⟩ := finalizeDownload_eq host
    (s'.active.get? analysis.bucket) analysis.bucket analysis timestamp hends
  have hget : ∀ id, (s'.close host analysis.bucket analysis timestamp
      analysis.completes).active.get? id =
        if id = analysis.bucket then none else s.active.get? id := by
    intro id
    rw [Extraction.close, InsertionMap.get?_delete]
    split_ifs with hid
    · rfl
    · exact hother id hid
  refine ⟨?_, fun figure id => ?_, fun {id download} hdownload => ?_⟩
  · rw [Extraction.close, hfinal, hdownloads]
    refine accounts_snoc_of_ends h.accounts hline (reports_statOf timestamp' fun figure => ?_)
    rw [hkept, hfigure, h.figures]
  · rw [hget]
    split_ifs with hid
    · rw [hid, told_snoc_of_ends hline]
      rfl
    · rw [h.figures, told_snoc_of_ne (Ne.symm hid)]
  · rw [hget] at hdownload
    split_ifs at hdownload
    exact h.quiet hdownload

theorem Tracks.reopen {id : Text} (h : Tracks host before s) (htold : told id before = [])
    (contentId displayName startTime : Option Text) (suppress : Bool) :
    Tracks host before { s with
      active := s.active.set id (.new contentId displayName startTime suppress) } := by
  refine ⟨h.accounts, fun figure id' => ?_, fun {id' download} hdownload => ?_⟩
  · rw [InsertionMap.get?_set]
    split_ifs with hid
    · rw [hid, htold, Option.bind_some, figure.new]
      rfl
    · exact h.figures figure id'
  · rw [InsertionMap.get?_set] at hdownload
    split_ifs at hdownload
    · cases hdownload
      exact ⟨rfl, rfl⟩
    · exact h.quiet hdownload

theorem get?_advance (s : Extraction F) (id : Text) (analysis : DownloadLineAnalysis F)
    (timestamp : Option Text) : ∃ download,
      (∀ id', (s.advance id analysis timestamp).active.get? id' =
        if id' = id then some download else s.active.get? id') ∧
      (∀ {B : Type} (figure : Figure F B), figure.kept download =
        (figure.read analysis).or ((s.active.get? id).bind figure.kept)) ∧
      ∃ opened : PartialDownload F,
        (s.active.get? id = some opened ∨
          opened.sawFailureSignal = false ∧ opened.sawRetrySignal = false) ∧
        download = applyDownloadAnalysis opened analysis timestamp := by
  refine ⟨_, fun id' => InsertionMap.get?_set _ _ _ _, fun figure => ?_, _, ?_, rfl⟩
  · rw [figure.apply, figure.kept_getD_new]
  · cases h : s.active.get? id with
    | none => exact .inr ⟨rfl, rfl⟩
    | some opened => exact .inl rfl

theorem Tracks.advance {analysis : DownloadLineAnalysis F} (h : Tracks host before s)
    (timestamp : Option Text) (hends : analysis.ends = false)
    (hcontributes : analysis.contributes = true) :
    Tracks host (before ++ [analysis]) (s.advance analysis.bucket analysis timestamp) := by
  obtain ⟨download, hget, hkept, opened, hopened, hdownload⟩ :=
    get?_advance s analysis.bucket analysis timestamp
  refine ⟨accounts_snoc_of_open h.accounts hends, fun figure id => ?_, fun {id found} hfound => ?_⟩
  · rw [hget]
    split_ifs with hid
    · rw [hid, Option.bind_some, hkept, h.figures, told_snoc_of_open hends, if_pos hcontributes,
        lastReported_snoc]
    · rw [h.figures, told_snoc_of_ne (Ne.symm hid)]
  · rw [hget] at hfound
    split_ifs at hfound
    · cases hfound
      have hquiet : opened.sawFailureSignal = false ∧ opened.sawRetrySignal = false :=
        hopened.elim h.quiet fun hnew => hnew
      simp only [DownloadLineAnalysis.ends, Bool.or_eq_false_iff] at hends
      rw [hdownload]
      simp only [applyDownloadAnalysis, hquiet, hends, Bool.or_false, and_self]
    · exact h.quiet hfound

theorem Tracks.skip {analysis : DownloadLineAnalysis F} (h : Tracks host before s)
    (hends : analysis.ends = false) (hcontributes : analysis.contributes = false) :
    Tracks host (before ++ [analysis]) s := by
  refine ⟨accounts_snoc_of_open h.accounts hends, fun figure id => ?_, h.quiet⟩
  rw [h.figures]
  by_cases hid : analysis.bucket = id
  · rw [← hid, told_snoc_of_open hends, if_neg (Bool.eq_false_iff.mp hcontributes),
      List.append_nil]
  · rw [told_snoc_of_ne hid]

theorem Tracks.closeAfter {analysis : DownloadLineAnalysis F} (h : Tracks host before s)
    (timestamp : Option Text)
    (hends : analysis.completes = true ∨ analysis.isRetry = true ∨ analysis.isFailed = true ∨
      analysis.isStall = true) :
    Tracks host (before ++ [analysis])
      ((if analysis.contributes then s.advance analysis.bucket analysis timestamp else s).close
        host analysis.bucket analysis timestamp analysis.completes) := by
  split_ifs with hcontributes
  · obtain ⟨download, hget, hkept, -⟩ := get?_advance s analysis.bucket analysis timestamp
    refine h.close timestamp rfl (fun id hid => by rw [hget, if_neg hid]) (fun figure => ?_) hends
    rw [hget, if_pos rfl, Option.bind_some, hkept, ← Option.or_assoc, Option.or_self]
  · exact h.close timestamp rfl (fun _ _ => rfl) (fun _ => rfl) hends

theorem tracks_step {analysis : DownloadLineAnalysis F} (h : Tracks host before s)
    (timestamp : Option Text) :
    Tracks host (before ++ [analysis]) (s.step host analysis timestamp) := by
  cases hretry : analysis.isRetry with
  | true =>
    have hcompletes : analysis.completes = false := by
      rw [DownloadLineAnalysis.completes, hretry]
      rfl
    have hends : analysis.ends = true := by
      rw [DownloadLineAnalysis.ends, hretry]
      rfl
    have hclose := h.close timestamp rfl (fun _ _ => rfl) (fun _ => rfl) (.inr (.inl hretry))
    rw [step, if_pos hretry]
    rw [hcompletes] at hclose
    exact hclose.reopen (told_snoc_of_ends hends) _ _ _ _
  | false =>
    rw [step, if_neg (Bool.eq_false_iff.mp hretry)]
    cases hcomplete : analysis.isComplete with
    | true =>
      have hcompletes : analysis.completes = true := by
        rw [DownloadLineAnalysis.completes, hretry, hcomplete]
        rfl
      have hclose := h.closeAfter timestamp (.inl hcompletes)
      rw [hcompletes] at hclose
      exact hclose
    | false =>
      have hcompletes : analysis.completes = false := by
        rw [DownloadLineAnalysis.completes, hcomplete, Bool.and_false]
      rw [if_neg Bool.false_ne_true]
      by_cases hfailed : (analysis.isFailed || analysis.isStall) = true
      · have hclose := h.closeAfter timestamp
          (.inr (.inr ((Bool.or_eq_true _ _).mp hfailed)))
        rw [if_pos hfailed]
        rw [hcompletes] at hclose
        exact hclose
      · rw [if_neg hfailed]
        have hends : analysis.ends = false := by
          rw [Bool.not_eq_true, Bool.or_eq_false_iff] at hfailed
          rw [DownloadLineAnalysis.ends, hretry, hcomplete, hfailed.1, hfailed.2]
          rfl
        cases hcontributes : analysis.contributes with
        | true => exact if_pos hcontributes ▸ h.advance timestamp hends hcontributes
        | false =>
          have hnot := Bool.eq_false_iff.mp hcontributes
          exact if_neg hnot ▸ h.skip hends hcontributes

theorem downloadLines_snoc (host : DownloadHost F) (lines : List ImeLine) (line : ImeLine) :
    downloadLines host (lines ++ [line]) =
      downloadLines host lines ++ (host.analyze line.message).toList := by
  rw [downloadLines, List.filterMap_append, downloadLines, List.filterMap_cons, List.filterMap_nil]
  cases host.analyze line.message <;> rfl

theorem tracks_run (host : DownloadHost F) (lines : List ImeLine) :
    Tracks host (downloadLines host lines) (lines.foldl (readLine host) {}) := by
  induction lines using List.reverseRecOn with
  | nil => exact tracks_start
  | append_singleton lines line ih =>
    rw [List.foldl_concat, readLine, downloadLines_snoc]
    cases host.analyze line.message with
    | none =>
      rw [Option.toList_none, List.append_nil]
      exact ih
    | some analysis => exact tracks_step ih _

theorem leftover_eq_none (host : DownloadHost F) {download : PartialDownload F}
    (h : download.sawFailureSignal = false ∧ download.sawRetrySignal = false) :
    leftover host download = none := by
  rw [leftover, h.1, h.2]
  rfl

end Extraction

theorem extractDownloads_eq (host : DownloadHost F)
    (order : IterationOrder (Text × PartialDownload F)) (lines : List ImeLine) {sourceFile : Text}
    (hsource : classifyDownloadSource host sourceFile ≠ .unsupported) :
    extractDownloads host order lines sourceFile =
      (lines.foldl (Extraction.readLine host) {}).downloads := by
  rw [extractDownloads, if_neg hsource]
  dsimp only
  rw [List.filterMap_eq_nil_iff.mpr, List.append_nil]
  intro download hdownload
  obtain ⟨⟨id, download⟩, hentry, rfl⟩ := List.mem_map.mp hdownload
  have hmem := ((order.perm _).mem_iff).mp hentry
  exact Extraction.leftover_eq_none host
    ((Extraction.tracks_run host lines).quiet ((InsertionMap.mem_entries _ _ _).mp hmem))

/-- The statistics are one for each line that ends an attempt, and no order of the map
changes them. -/
theorem extractDownloads_accounts (host : DownloadHost F) (lines : List ImeLine)
    {sourceFile : Text} (hsource : classifyDownloadSource host sourceFile ≠ .unsupported)
    (order order' : IterationOrder (Text × PartialDownload F)) :
    Accounts host.zero (downloadLines host lines) (extractDownloads host order lines sourceFile) ∧
      extractDownloads host order lines sourceFile =
        extractDownloads host order' lines sourceFile := by
  rw [extractDownloads_eq host order lines hsource, extractDownloads_eq host order' lines hsource]
  exact ⟨(Extraction.tracks_run host lines).accounts, rfl⟩

def appId : Text := "a1b2c3d4-e5f6-7890-abcd-ef1234567890".toList

def someHost : DownloadHost Nat where
  analyze message :=
    if message = "Starting content download for app id: ".toList ++ appId then
      some { contentId := some appId, isStart := true }
    else if message = "Download failed, retrying content download for app id: ".toList ++ appId then
      some { contentId := some appId, isFailed := true, isRetry := true }
    else none
  resolve _ := none
  fileName path := (rsplitOnce '/' path).map Prod.snd
  readers := someReaders
  zero := 0

def retriedLines : List ImeLine :=
  [{ lineNumber := 1, timestamp := some "01-15-2024 10:00:00".toList,
     message := "Starting content download for app id: ".toList ++ appId },
   { lineNumber := 2, timestamp := some "01-15-2024 10:05:00".toList,
     message := "Download failed, retrying content download for app id: ".toList ++ appId }]

theorem extractDownloads_accounts_retried :
    Accounts 0 (downloadLines someHost retriedLines)
      (extractDownloads someHost ⟨id, fun _ => .refl _⟩ retriedLines
        "C:/Logs/AppWorkload.log".toList) ∧
    extractDownloads someHost ⟨id, fun _ => .refl _⟩ retriedLines
        "C:/Logs/AppWorkload.log".toList =
      extractDownloads someHost ⟨List.reverse, List.reverse_perm⟩ retriedLines
        "C:/Logs/AppWorkload.log".toList :=
  extractDownloads_accounts someHost retriedLines (by decide) _ _

def leftAfterRetry (lines : List (DownloadLineAnalysis F)) (id : Text) : Bool :=
  ((lines.filter fun analysis => analysis.bucket == id && analysis.ends).getLast?).any
    DownloadLineAnalysis.isRetry

/-- An attempt that a retry opened and no line ended is not in the statistics. -/
theorem extractDownloads_skips_reopened :
    (extractDownloads someHost ⟨id, fun _ => .refl _⟩ retriedLines
        "C:/Logs/AppWorkload.log".toList).length ≠
      (downloadLines someHost retriedLines).countP DownloadLineAnalysis.ends +
        ((downloadLines someHost retriedLines).map DownloadLineAnalysis.bucket).dedup.countP
          (leftAfterRetry (downloadLines someHost retriedLines)) := by decide +kernel

end Intune
end CmTrace
