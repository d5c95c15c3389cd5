import CmTrace.Firewall.Record

/-!
# Firewall rows from decoded text

`FirewallStream` frames decoded text into physical lines and turns each complete
line into a row or a change of context.  At the end of what has been written so
far, `snapshotEof` publishes the unfinished line as a provisional row, and later
text replaces that row in place.

A stream that published provisional rows is compared with one that never did:
`Tracks` says the two agree but for the last row, and every operation keeps it.

Row ids are source-local and counted without a limit; lines and counts saturate
as the program's do.
-/

namespace CmTrace
namespace Firewall

open Log Text

structure FirewallRowReplacement where
  expectedId : Nat
  expectedLineNumber : Nat
  entry : LogEntry
  deriving DecidableEq, Repr

structure FirewallContextChange where
  /-- The line at which the context becomes active. -/
  lineNumber : Nat
  context : FirewallContext
  deriving DecidableEq, Repr

structure FirewallDelta where
  entries : List LogEntry := []
  replacements : List FirewallRowReplacement := []
  coverage : FirewallCoverage := {}
  observedThroughLine : Nat := 0
  contextChanges : List FirewallContextChange := []
  deriving DecidableEq, Repr

def FirewallDelta.append (delta : FirewallDelta) (entry : LogEntry) : FirewallDelta :=
  { delta with entries := delta.entries ++ [entry] }

def FirewallDelta.replace (delta : FirewallDelta) (rep : FirewallRowReplacement) : FirewallDelta :=
  { delta with replacements := delta.replacements ++ [rep] }

structure FirewallStream where
  context : FirewallContext := {}
  nextId : Nat
  nextLine : Nat
  observed : Nat
  pending : Text := []
  pendingCr : Bool := false
  lineActive : Bool := false
  padding : Nat := 0
  oversized : Bool := false
  provisionalId : Option Nat := none
  provisionalCoverage : FirewallCoverage := {}
  committed : FirewallCoverage := {}
  deriving DecidableEq, Repr

/-- Put `rep` in the place of the first row with its id and line. -/
def replaceRow : List LogEntry → FirewallRowReplacement → List LogEntry
  | [], _ => []
  | e :: rest, rep =>
    if e.id = rep.expectedId ∧ e.lineNumber = rep.expectedLineNumber then rep.entry :: rest
    else e :: replaceRow rest rep

def applyDelta (entries : List LogEntry) (delta : FirewallDelta) : List LogEntry :=
  delta.replacements.foldl replaceRow (entries ++ delta.entries)

namespace FirewallStream

def new (nextId nextLine : Nat) : FirewallStream :=
  { nextId := nextId, nextLine := nextLine, observed := nextLine - 1 }

def coverage (s : FirewallStream) : FirewallCoverage :=
  let c := s.committed.merge s.provisionalCoverage
  { c with padding := c.padding.add s.padding s.nextLine }

def textChar (s : FirewallStream) (ch : Char) : FirewallStream :=
  if ch = '\x00' ∧ s.pending = [] ∧ s.oversized = false then
    { s with padding := saturatingAdd u64Max s.padding 1 }
  else if s.oversized = false then
    if byteLen s.pending + ch.utf8Size ≤ maxFirewallLineBytes then
      { s with pending := s.pending ++ [ch] }
    else { s with oversized := true }
  else s

def setContext (s : FirewallStream) (context : FirewallContext) : FirewallStream :=
  { s with context := context }

def activate (s : FirewallStream) : FirewallStream := { s with lineActive := true }

/-- A scalar inside a line; a carriage return waits to see a line feed. -/
def acceptChar (s : FirewallStream) (ch : Char) : FirewallStream :=
  let s := s.activate
  let s := if s.pendingCr then { s with pendingCr := false }.textChar '\r' else s
  if ch = '\r' then { s with pendingCr := true } else s.textChar ch

/-- The line is a comment, as far as it has arrived. -/
def isDirective (s : FirewallStream) : Bool := (trimStart s.pending).head? == some '#'

section
variable (parseFromStr : Text → Option Int)

/-- The row the pending line makes.  A line past the cap is evidence only. -/
def parsed (s : FirewallStream) (path : Text) (id : Nat) : FirewallRecordResult :=
  let parsed := parseRecord parseFromStr s.pending s.context id s.nextLine path
  if s.oversized then
    { entry := { parsed.entry with
        firewall := parsed.entry.firewall.map fun f =>
          { f with truncated := true, recordKind := .malformed, fields := [] },
        message := "Oversized firewall record (truncated)".toList,
        severity := .info, timestamp := none, timezoneOffset := none },
      coverage := { oversized := ({} : FirewallMetric).add 1 s.nextLine,
                    unplacedTimestamps := ({} : FirewallMetric).add 1 s.nextLine } }
  else parsed

def emitRecord (s : FirewallStream) (path : Text) (delta : FirewallDelta) (provisional : Bool) :
    FirewallStream × FirewallDelta :=
  let id := s.provisionalId.getD s.nextId
  let parsed := s.parsed parseFromStr path id
  let (s, delta) := match s.provisionalId with
    | some expectedId => (s, delta.replace ⟨expectedId, s.nextLine, parsed.entry⟩)
    | none => ({ s with nextId := s.nextId + 1 }, delta.append parsed.entry)
  if provisional then
    ({ s with provisionalId := some id, provisionalCoverage := parsed.coverage }, delta)
  else ({ s with committed := s.committed.merge parsed.coverage }, delta)

/-- A capped directive must not install a partial schema nor keep the old one. -/
def cappedDirective (context : FirewallContext) (pending : Text) : FirewallContext :=
  let key := (splitOn ':' (trimStart pending)).headD []
  if eqIgnoreAsciiCase key "#Fields".toList then (context.directive "#Fields:".toList).2
  else if eqIgnoreAsciiCase key "#Software".toList then (context.directive "#Software:".toList).2
  else if eqIgnoreAsciiCase key "#Time Format".toList then
    (context.directive "#Time Format:".toList).2
  else context

/-- Read the pending line: a row, a change of context, or nothing. -/
def readLine (s : FirewallStream) (path : Text) (delta : FirewallDelta) :
    FirewallStream × FirewallDelta :=
  if s.oversized then
    let s := if s.isDirective then s.setContext (cappedDirective s.context s.pending) else s
    s.emitRecord parseFromStr path delta false
  else if s.isDirective then (s.setContext (s.context.directive s.pending).2, delta)
  else if trim s.pending ≠ [] then s.emitRecord parseFromStr path delta false
  else (s, delta)

def closeLine (s : FirewallStream) : FirewallStream :=
  { s with
    committed := { s.committed with padding := s.committed.padding.add s.padding s.nextLine },
    observed := s.nextLine, nextLine := saturatingAdd u32Max s.nextLine 1, pending := [],
    pendingCr := false, lineActive := false, padding := 0, oversized := false,
    provisionalId := none, provisionalCoverage := {} }

def finishLine (s : FirewallStream) (path : Text) (delta : FirewallDelta) :
    FirewallStream × FirewallDelta :=
  let before := s.context
  let (s, delta) := s.readLine parseFromStr path delta
  let delta := if s.context = before then delta else
    { delta with contextChanges :=
        delta.contextChanges ++ [⟨saturatingAdd u32Max s.nextLine 1, s.context⟩] }
  (s.closeLine, delta)

def finishDelta (s : FirewallStream) (delta : FirewallDelta) : FirewallDelta :=
  { delta with coverage := s.coverage, observedThroughLine := s.observed }

def pushChar (path : Text) (r : FirewallStream × FirewallDelta) (ch : Char) :
    FirewallStream × FirewallDelta :=
  if ch = '\n' then r.1.activate.finishLine parseFromStr path r.2
  else (r.1.acceptChar ch, r.2)

def pushText (s : FirewallStream) (text path : Text) : FirewallDelta × FirewallStream :=
  let (s, delta) := text.foldl (pushChar parseFromStr path) (s, {})
  let (s, delta) :=
    if text ≠ [] ∧ s.provisionalId.isSome then s.emitRecord parseFromStr path delta true
    else (s, delta)
  (s.finishDelta delta, s)

/-- The unfinished line is one a snapshot shows. -/
def shows (s : FirewallStream) : Bool :=
  s.oversized || (trim s.pending != [] && !s.isDirective)

/-- The line under way counts as observed once it has begun. -/
def observe (s : FirewallStream) : FirewallStream :=
  if s.lineActive then { s with observed := s.nextLine } else s

def snapshotEof (s : FirewallStream) (path : Text) : FirewallDelta × FirewallStream :=
  let s := s.observe
  let (s, delta) := if s.shows then s.emitRecord parseFromStr path {} true else (s, {})
  (s.finishDelta delta, s)

end

/-! ## Provisional rows -/

/-- The stream that differs in what publishing a provisional row touches. -/
def overlay (r : FirewallStream) (nextId observed : Nat) (provisionalId : Option Nat)
    (provisionalCoverage : FirewallCoverage) : FirewallStream :=
  { r with nextId := nextId, observed := observed, provisionalId := provisionalId,
           provisionalCoverage := provisionalCoverage }

def Plain (r : FirewallStream) : Prop := r.provisionalId = none ∧ r.provisionalCoverage = {}

/-- `s` with rows `v` is `r` with rows `w`, but that `s` may have published the
line it is in as one more row. -/
inductive Tracks : FirewallStream → List LogEntry → FirewallStream → List LogEntry → Prop where
  | settled {r : FirewallStream} {w : List LogEntry} (observed : Nat) (plain : r.Plain)
      (fresh : ∀ e ∈ w, e.id < r.nextId) (sameObserved : r.lineActive = false → observed = r.observed) :
      Tracks (r.overlay r.nextId observed none {}) w r w
  | shown {r : FirewallStream} {w : List LogEntry} (observed : Nat) (coverage : FirewallCoverage)
      (e : LogEntry) (plain : r.Plain) (fresh : ∀ e ∈ w, e.id < r.nextId)
      (sameObserved : r.lineActive = false → observed = r.observed)
      (visible : r.shows = true) (sameId : e.id = r.nextId) (sameLine : e.lineNumber = r.nextLine) :
      Tracks (r.overlay (r.nextId + 1) observed (some r.nextId) coverage) (w ++ [e]) r w

theorem textChar_overlay (r : FirewallStream) (n o : Nat) (p : Option Nat) (c : FirewallCoverage)
    (ch : Char) : (r.overlay n o p c).textChar ch = (r.textChar ch).overlay n o p c := by
  unfold textChar overlay
  simp only
  split_ifs <;> rfl

theorem acceptChar_overlay (r : FirewallStream) (n o : Nat) (p : Option Nat)
    (c : FirewallCoverage) (ch : Char) :
    (r.overlay n o p c).acceptChar ch = (r.acceptChar ch).overlay n o p c := by
  have hcr : ∀ x : FirewallStream, { x.overlay n o p c with pendingCr := false } =
      { x with pendingCr := false }.overlay n o p c := fun _ => rfl
  have hactive : (r.overlay n o p c).activate = r.activate.overlay n o p c := rfl
  unfold acceptChar
  rw [hactive]
  generalize r.activate = x
  have hpend : (x.overlay n o p c).pendingCr = x.pendingCr := rfl
  simp only [hcr, hpend]
  cases x.pendingCr with
  | true =>
    simp only [if_true, textChar_overlay]
    split_ifs <;> rfl
  | false =>
    simp only [Bool.false_eq_true, if_false, textChar_overlay]
    split_ifs <;> rfl

/-- What a scalar inside a line leaves alone. -/
structure SameLine (s t : FirewallStream) : Prop where
  nextId : t.nextId = s.nextId
  nextLine : t.nextLine = s.nextLine
  context : t.context = s.context
  committed : t.committed = s.committed
  provisionalId : t.provisionalId = s.provisionalId
  provisionalCoverage : t.provisionalCoverage = s.provisionalCoverage

theorem textChar_sameLine (s : FirewallStream) (ch : Char) : SameLine s (s.textChar ch) := by
  unfold textChar
  split_ifs <;> exact ⟨rfl, rfl, rfl, rfl, rfl, rfl⟩

theorem textChar_lineActive (s : FirewallStream) (ch : Char) :
    (s.textChar ch).lineActive = s.lineActive := by
  unfold textChar
  split_ifs <;> rfl

theorem SameLine.trans {s t u : FirewallStream} (h : SameLine s t) (h' : SameLine t u) :
    SameLine s u :=
  ⟨h'.1.trans h.1, h'.2.trans h.2, h'.3.trans h.3, h'.4.trans h.4, h'.5.trans h.5, h'.6.trans h.6⟩

/-- What holds of a line and survives a text scalar survives any scalar inside
the line. -/
theorem acceptChar_rule {P : FirewallStream → Prop} (s : FirewallStream) (ch : Char)
    (start : P s.activate)
    (cr : ∀ (x : FirewallStream) (b : Bool), P x → P { x with pendingCr := b })
    (text : ∀ (x : FirewallStream) (c : Char), P x → P (x.textChar c)) : P (s.acceptChar ch) := by
  unfold acceptChar
  simp only
  split_ifs
  · exact cr _ _ (text _ _ (cr _ _ start))
  · exact cr _ _ start
  · exact text _ _ (text _ _ (cr _ _ start))
  · exact text _ _ start

theorem acceptChar_sameLine (s : FirewallStream) (ch : Char) : SameLine s (s.acceptChar ch) :=
  acceptChar_rule s ch ⟨rfl, rfl, rfl, rfl, rfl, rfl⟩
    (fun _ _ h => h.trans ⟨rfl, rfl, rfl, rfl, rfl, rfl⟩)
    (fun x c h => h.trans (x.textChar_sameLine c))

theorem acceptChar_lineActive (s : FirewallStream) (ch : Char) :
    (s.acceptChar ch).lineActive = true :=
  acceptChar_rule (P := fun x => x.lineActive = true) s ch rfl (fun _ _ h => h)
    (fun x c h => (x.textChar_lineActive c).trans h)

theorem isDirective_append {s : FirewallStream} (h : trim s.pending ≠ []) (t : Text) :
    { s with pending := s.pending ++ t }.isDirective = s.isDirective := by
  have hne : trimStart s.pending ≠ [] := by
    intro hn
    exact h ((trim_nil_iff _).mpr ((trimStart_nil_iff _).mp hn))
  unfold isDirective
  simp only [trimStart] at hne ⊢
  rw [List.dropWhile_append, if_neg (by simpa using hne)]
  cases hd : s.pending.dropWhile isWhitespace with
  | nil => exact absurd hd hne
  | cons c rest => rfl

theorem shows_textChar {s : FirewallStream} (h : s.shows = true) (ch : Char) :
    (s.textChar ch).shows = true := by
  unfold textChar
  split_ifs with hpad hover hfit
  · simp [shows, hpad.2.1, hpad.2.2, trim, trimStart, trimEnd] at h
  · simp only [shows, hover, Bool.false_or, Bool.and_eq_true, bne_iff_ne] at h ⊢
    refine ⟨?_, ?_⟩
    · intro hn
      have hb := (trim_nil_iff _).mp hn
      simp only [isBlank, List.all_append, Bool.and_eq_true] at hb
      exact h.1 ((trim_nil_iff _).mpr hb.1)
    · show (!{ s with pending := s.pending ++ [ch] }.isDirective) = true
      rw [isDirective_append h.1]
      exact h.2
  · simp [shows]
  · exact h

theorem shows_acceptChar {s : FirewallStream} (h : s.shows = true) (ch : Char) :
    (s.acceptChar ch).shows = true :=
  acceptChar_rule (P := fun x => x.shows = true) s ch h (fun _ _ h => h)
    (fun _ c h => shows_textChar h c)

end FirewallStream

/-! ## Rows and deltas -/

def rowKey (e : LogEntry) : Nat × Nat := (e.id, e.lineNumber)

def FirewallRowReplacement.key (rep : FirewallRowReplacement) : Nat × Nat :=
  (rep.expectedId, rep.expectedLineNumber)

/-- Some row has the id and the line of the replacement. -/
def FirewallRowReplacement.Targets (rep : FirewallRowReplacement) (rows : List LogEntry) : Prop :=
  rep.key ∈ rows.map rowKey

/-- The row put in keeps the id and the line of the row taken out. -/
def FirewallRowReplacement.Keeps (rep : FirewallRowReplacement) : Prop := rowKey rep.entry = rep.key

theorem rowKey_eq_key {e : LogEntry} {rep : FirewallRowReplacement} :
    rowKey e = rep.key ↔ e.id = rep.expectedId ∧ e.lineNumber = rep.expectedLineNumber :=
  Prod.mk.injEq _ _ _ _ ▸ Iff.rfl

theorem replaceRow_append {rows : List LogEntry} {rep : FirewallRowReplacement}
    (h : rep.Targets rows) (more : List LogEntry) :
    replaceRow (rows ++ more) rep = replaceRow rows rep ++ more := by
  induction rows with
  | nil => cases h
  | cons row rest ih =>
    rw [List.cons_append, replaceRow, replaceRow]
    split
    · rfl
    · rename_i hrow
      rcases List.mem_cons.mp h with hk | hk
      · exact absurd (rowKey_eq_key.mp hk.symm) hrow
      · rw [ih hk, List.cons_append]

theorem replaceRow_last {rows : List LogEntry} {rep : FirewallRowReplacement} {e : LogEntry}
    (hrows : ∀ row ∈ rows, row.id ≠ rep.expectedId)
    (he : e.id = rep.expectedId ∧ e.lineNumber = rep.expectedLineNumber) :
    replaceRow (rows ++ [e]) rep = rows ++ [rep.entry] := by
  induction rows with
  | nil => rw [List.nil_append, List.nil_append, replaceRow, if_pos he]
  | cons row rest ih =>
    have hrow := hrows row (by simp)
    rw [List.cons_append, replaceRow, if_neg (fun hk => hrow hk.1),
      ih fun row hr => hrows row (List.mem_cons_of_mem _ hr), List.cons_append]

theorem keys_replaceRow {rep : FirewallRowReplacement} (hk : rep.Keeps) (rows : List LogEntry) :
    (replaceRow rows rep).map rowKey = rows.map rowKey := by
  induction rows with
  | nil => rfl
  | cons row rest ih =>
    rw [replaceRow]
    split
    · rename_i hrow
      rw [List.map_cons, List.map_cons, hk, rowKey_eq_key.mpr hrow]
    · rw [List.map_cons, List.map_cons, ih]

theorem keys_foldl_replaceRow (reps : List FirewallRowReplacement) : ∀ (rows : List LogEntry),
    (∀ rep ∈ reps, rep.Keeps) → (reps.foldl replaceRow rows).map rowKey = rows.map rowKey := by
  induction reps with
  | nil => intro rows _; rfl
  | cons rep rest ih =>
    intro rows h
    rw [List.foldl_cons, ih _ fun other ho => h other (List.mem_cons_of_mem _ ho),
      keys_replaceRow (h rep (by simp))]

theorem foldl_replaceRow_append (more : List LogEntry) (reps : List FirewallRowReplacement) :
    ∀ {rows : List LogEntry}, (∀ rep ∈ reps, rep.Targets rows ∧ rep.Keeps) →
      reps.foldl replaceRow (rows ++ more) = reps.foldl replaceRow rows ++ more := by
  induction reps with
  | nil => intro rows _; rfl
  | cons rep rest ih =>
    intro rows h
    have hrep := h rep (by simp)
    rw [List.foldl_cons, List.foldl_cons, replaceRow_append hrep.1]
    refine ih fun other ho => ?_
    have hother := h other (List.mem_cons_of_mem _ ho)
    refine ⟨?_, hother.2⟩
    rw [FirewallRowReplacement.Targets, keys_replaceRow hrep.2]
    exact hother.1

/-- Every replacement names a row of the vector the delta is applied to, or one
that the delta itself brings. -/
def FirewallDelta.Sound (delta : FirewallDelta) (rows : List LogEntry) : Prop :=
  ∀ rep ∈ delta.replacements, rep.Targets (rows ++ delta.entries) ∧ rep.Keeps

theorem applyDelta_append {rows : List LogEntry} {delta : FirewallDelta} (h : delta.Sound rows)
    (e : LogEntry) : applyDelta rows (delta.append e) = applyDelta rows delta ++ [e] := by
  show delta.replacements.foldl replaceRow (rows ++ (delta.entries ++ [e])) = _
  rw [← List.append_assoc, foldl_replaceRow_append [e] delta.replacements h]
  rfl

theorem applyDelta_replace (rows : List LogEntry) (delta : FirewallDelta)
    (rep : FirewallRowReplacement) :
    applyDelta rows (delta.replace rep) = replaceRow (applyDelta rows delta) rep := by
  show (delta.replacements ++ [rep]).foldl replaceRow (rows ++ delta.entries) = _
  rw [List.foldl_append]
  rfl

theorem sound_append {rows : List LogEntry} {delta : FirewallDelta} (h : delta.Sound rows)
    (e : LogEntry) : (delta.append e).Sound rows := by
  intro rep hrep
  refine ⟨?_, (h rep hrep).2⟩
  show rep.key ∈ (rows ++ (delta.entries ++ [e])).map rowKey
  rw [← List.append_assoc, List.map_append]
  exact List.mem_append_left _ (h rep hrep).1

theorem sound_replace {rows : List LogEntry} {delta : FirewallDelta} (h : delta.Sound rows)
    {rep : FirewallRowReplacement} (ht : rep.Targets (applyDelta rows delta)) (hk : rep.Keeps) :
    (delta.replace rep).Sound rows := by
  intro other ho
  rcases List.mem_append.mp ho with ho | ho
  · exact h other ho
  · rw [List.mem_singleton.mp ho]
    refine ⟨?_, hk⟩
    rw [FirewallRowReplacement.Targets, applyDelta,
      keys_foldl_replaceRow _ _ fun o ho => (h o ho).2] at ht
    exact ht

namespace FirewallStream

section
variable (parseFromStr : Text → Option Int)

theorem parsed_id (s : FirewallStream) (path : Text) (id : Nat) :
    (s.parsed parseFromStr path id).entry.id = id := by
  unfold parsed
  simp only
  split <;> rfl

theorem parsed_lineNumber (s : FirewallStream) (path : Text) (id : Nat) :
    (s.parsed parseFromStr path id).entry.lineNumber = s.nextLine := by
  unfold parsed
  simp only
  split <;> rfl

theorem emitRecord_plain {r : FirewallStream} (h : r.provisionalId = none) (path : Text)
    (d : FirewallDelta) :
    r.emitRecord parseFromStr path d false =
      ({ r with nextId := r.nextId + 1,
                committed := r.committed.merge (r.parsed parseFromStr path r.nextId).coverage },
        d.append (r.parsed parseFromStr path r.nextId).entry) := by
  unfold emitRecord
  rw [h]
  rfl

/-- Publishing a complete line: the stream that showed it replaces its row, the
other appends it. -/
theorem emitRecord_complete {s r : FirewallStream} {v w : List LogEntry} (h : Tracks s v r w)
    {rows : List LogEntry} {delta : FirewallDelta} (hs : delta.Sound rows)
    (hv : v = applyDelta rows delta) (path : Text) (d : FirewallDelta) :
    ∃ row, row.id = r.nextId ∧
      (r.emitRecord parseFromStr path d false).2 = d.append row ∧
      (s.emitRecord parseFromStr path delta false).2.Sound rows ∧
      applyDelta rows (s.emitRecord parseFromStr path delta false).2 = w ++ [row] ∧
      (s.emitRecord parseFromStr path delta false).1.closeLine =
        (r.emitRecord parseFromStr path d false).1.closeLine := by
  cases h with
  | settled observed plain fresh sameObserved =>
    have hemit := emitRecord_plain parseFromStr plain.1 path
    rw [hemit d]
    have hplain : (r.overlay r.nextId observed none {}).Plain := ⟨rfl, rfl⟩
    rw [emitRecord_plain parseFromStr hplain.1 path delta]
    refine ⟨(r.parsed parseFromStr path r.nextId).entry, parsed_id _ _ _ _, rfl,
      sound_append hs _, ?_, rfl⟩
    rw [applyDelta_append hs, ← hv]
    rfl
  | shown observed coverage e plain fresh sameObserved visible sameId sameLine =>
    rw [emitRecord_plain parseFromStr plain.1 path d]
    refine ⟨(r.parsed parseFromStr path r.nextId).entry, parsed_id _ _ _ _, rfl, ?_, ?_, rfl⟩
    · refine sound_replace hs ?_ ?_
      · rw [← hv, FirewallRowReplacement.Targets, List.map_append]
        exact List.mem_append_right _ (by simp [rowKey, FirewallRowReplacement.key, sameId, sameLine, overlay])
      · exact Prod.ext (parsed_id _ _ _ _) (parsed_lineNumber _ _ _ _)
    · show applyDelta rows (delta.replace _) = _
      rw [applyDelta_replace, ← hv]
      exact replaceRow_last (fun row hr => Nat.ne_of_lt (fresh row hr)) ⟨sameId, sameLine⟩

theorem tracks_setContext {s r : FirewallStream} {v w : List LogEntry} (h : Tracks s v r w)
    (context : FirewallContext) : Tracks (s.setContext context) v (r.setContext context) w := by
  cases h with
  | settled observed plain fresh sameObserved =>
    exact .settled (r := r.setContext context) observed plain fresh sameObserved
  | shown observed coverage e plain fresh sameObserved visible sameId sameLine =>
    exact .shown (r := r.setContext context) observed coverage e plain fresh sameObserved visible
      sameId sameLine

theorem tracks_activate {s r : FirewallStream} {v w : List LogEntry} (h : Tracks s v r w) :
    Tracks s.activate v r.activate w := by
  have hactive : r.activate.lineActive ≠ false := fun h => by cases h
  cases h with
  | settled observed plain fresh _ =>
    exact .settled (r := r.activate) observed plain fresh (fun h => absurd h hactive)
  | shown observed coverage e plain fresh _ visible sameId sameLine =>
    exact .shown (r := r.activate) observed coverage e plain fresh (fun h => absurd h hactive)
      visible sameId sameLine

theorem tracks_fresh {s r : FirewallStream} {v w : List LogEntry} (h : Tracks s v r w) :
    r.Plain ∧ ∀ e ∈ w, e.id < r.nextId := by
  cases h with
  | settled observed plain fresh => exact ⟨plain, fresh⟩
  | shown observed coverage e plain fresh => exact ⟨plain, fresh⟩

theorem tracks_hidden {s r : FirewallStream} {v w : List LogEntry} (h : Tracks s v r w)
    (hidden : r.shows = false) : ∃ observed, s = r.overlay r.nextId observed none {} ∧ v = w := by
  cases h with
  | settled observed => exact ⟨observed, rfl, rfl⟩
  | shown observed coverage e plain fresh sameObserved visible =>
    rw [hidden] at visible
    cases visible

def lineContext (s : FirewallStream) : FirewallContext :=
  if s.isDirective then
    if s.oversized then cappedDirective s.context s.pending else (s.context.directive s.pending).2
  else s.context

theorem readLine_eq (s : FirewallStream) (path : Text) (delta : FirewallDelta) :
    s.readLine parseFromStr path delta =
      if s.shows then (s.setContext s.lineContext).emitRecord parseFromStr path delta false
      else (s.setContext s.lineContext, delta) := by
  have hself : s.setContext s.context = s := rfl
  rw [readLine]
  cases ho : s.oversized <;> cases hd : s.isDirective <;>
    by_cases ht : trim s.pending = [] <;> simp [shows, lineContext, ho, hd, ht, hself]

theorem tracks_line {s r : FirewallStream} {v w : List LogEntry} (h : Tracks s v r w) :
    s.shows = r.shows ∧ s.pending = r.pending ∧ s.lineContext = r.lineContext := by
  cases h <;> exact ⟨rfl, rfl, rfl⟩

theorem readLine_tracks {s r : FirewallStream} {v w : List LogEntry} (h : Tracks s v r w)
    {rows : List LogEntry} {delta : FirewallDelta} (hs : delta.Sound rows)
    (hv : v = applyDelta rows delta) (path : Text) (d : FirewallDelta) :
    ∃ new, (r.readLine parseFromStr path d).2.entries = d.entries ++ new ∧
      (∀ e ∈ w ++ new, e.id < (r.readLine parseFromStr path d).1.nextId) ∧
      (s.readLine parseFromStr path delta).2.Sound rows ∧
      applyDelta rows (s.readLine parseFromStr path delta).2 = w ++ new ∧
      (s.readLine parseFromStr path delta).1.closeLine =
        (r.readLine parseFromStr path d).1.closeLine := by
  obtain ⟨hsame, -, hline⟩ := tracks_line h
  have hctx := tracks_setContext h r.lineContext
  rw [readLine_eq, readLine_eq, hsame, hline]
  cases hshow : r.shows with
  | true =>
    simp only [if_true]
    generalize r.setContext r.lineContext = y at hctx ⊢
    obtain ⟨plain, fresh⟩ := tracks_fresh hctx
    obtain ⟨row, hid, hd, hsound, happly, hclose⟩ :=
      emitRecord_complete parseFromStr hctx hs hv path d
    refine ⟨[row], by rw [hd]; rfl, fun e he => ?_, hsound, happly, hclose⟩
    rw [emitRecord_plain parseFromStr plain.1]
    show e.id < y.nextId + 1
    rcases List.mem_append.mp he with he | he
    · exact Nat.lt_succ_of_lt (fresh e he)
    · rw [List.mem_singleton.mp he, hid]
      exact Nat.lt_succ_self _
  | false =>
    obtain ⟨observed, rfl, rfl⟩ := tracks_hidden h hshow
    simp only [Bool.false_eq_true, if_false]
    refine ⟨[], by simp, fun e he => ?_, hs, by simp [hv], rfl⟩
    rw [List.append_nil] at he
    exact (tracks_fresh h).2 e he

theorem overlay_self {r : FirewallStream} (h : r.Plain) :
    r.overlay r.nextId r.observed none {} = r := by
  obtain ⟨hid, hcov⟩ := h
  unfold overlay
  rw [← hid, ← hcov]

theorem closeLine_plain (r : FirewallStream) : r.closeLine.Plain := ⟨rfl, rfl⟩

theorem pushChar_tracks {s r : FirewallStream} {v w : List LogEntry} (h : Tracks s v r w)
    {rows : List LogEntry} {delta : FirewallDelta} (hs : delta.Sound rows)
    (hv : v = applyDelta rows delta) (path : Text) (d : FirewallDelta) (ch : Char) :
    ∃ new, (pushChar parseFromStr path (r, d) ch).2.entries = d.entries ++ new ∧
      (pushChar parseFromStr path (s, delta) ch).2.Sound rows ∧
      Tracks (pushChar parseFromStr path (s, delta) ch).1
        (applyDelta rows (pushChar parseFromStr path (s, delta) ch).2)
        (pushChar parseFromStr path (r, d) ch).1 (w ++ new) := by
  by_cases hn : ch = '\n'
  · rw [pushChar, pushChar, if_pos hn, if_pos hn]
    obtain ⟨new, hentries, hfresh, hsound, happly, hclose⟩ :=
      readLine_tracks parseFromStr (tracks_activate h) hs hv path d
    have hlast : ∀ (x : FirewallStream) (e : FirewallDelta),
        (x.finishLine parseFromStr path e).1 = (x.readLine parseFromStr path e).1.closeLine ∧
        (x.finishLine parseFromStr path e).2.entries = (x.readLine parseFromStr path e).2.entries ∧
        (x.finishLine parseFromStr path e).2.replacements =
          (x.readLine parseFromStr path e).2.replacements := by
      intro x e
      refine ⟨rfl, ?_, ?_⟩
      all_goals
        simp only [finishLine]
        split <;> rfl
    obtain ⟨hs1, hs2, hs3⟩ := hlast s.activate delta
    obtain ⟨hr1, hr2, _⟩ := hlast r.activate d
    refine ⟨new, hr2.trans hentries, ?_, ?_⟩
    · intro rep hrep
      rw [hs3] at hrep
      rw [hs2]
      exact hsound rep hrep
    · have hrows : applyDelta rows (s.activate.finishLine parseFromStr path delta).2 = w ++ new := by
        rw [applyDelta, hs2, hs3]
        exact happly
      rw [hrows, hs1, hr1, hclose]
      have hplain := closeLine_plain (r.activate.readLine parseFromStr path d).1
      have ht := Tracks.settled (w := w ++ new) _ hplain hfresh (fun _ => rfl)
      rw [overlay_self hplain] at ht
      exact ht
  · rw [pushChar, pushChar, if_neg hn, if_neg hn]
    refine ⟨[], by simp, hs, ?_⟩
    simp only [List.append_nil, ← hv]
    have hsame := acceptChar_sameLine r ch
    have hact := acceptChar_lineActive r ch
    cases h with
    | settled observed plain fresh =>
      rw [acceptChar_overlay, ← hsame.nextId]
      refine .settled observed ⟨hsame.provisionalId.trans plain.1,
        hsame.provisionalCoverage.trans plain.2⟩ ?_ (fun hf => absurd hf (by simp [hact]))
      rw [hsame.nextId]
      exact fresh
    | shown observed coverage e plain fresh _ visible sameId sameLine =>
      rw [acceptChar_overlay, ← hsame.nextId]
      refine .shown observed coverage e ⟨hsame.provisionalId.trans plain.1,
        hsame.provisionalCoverage.trans plain.2⟩ ?_ (fun hf => absurd hf (by simp [hact]))
        (shows_acceptChar visible ch) (sameId.trans hsame.nextId.symm)
        (sameLine.trans hsame.nextLine.symm)
      rw [hsame.nextId]
      exact fresh

theorem foldl_pushChar_tracks (path : Text) {rows : List LogEntry} (text : Text) :
    ∀ {s r : FirewallStream} {v w : List LogEntry} {delta d : FirewallDelta}, Tracks s v r w →
      delta.Sound rows → v = applyDelta rows delta →
        ∃ new, (text.foldl (pushChar parseFromStr path) (r, d)).2.entries = d.entries ++ new ∧
          (text.foldl (pushChar parseFromStr path) (s, delta)).2.Sound rows ∧
          Tracks (text.foldl (pushChar parseFromStr path) (s, delta)).1
            (applyDelta rows (text.foldl (pushChar parseFromStr path) (s, delta)).2)
            (text.foldl (pushChar parseFromStr path) (r, d)).1 (w ++ new) := by
  induction text with
  | nil =>
    intro s r v w delta d h hs hv
    exact ⟨[], by simp, hs, by simpa [← hv] using h⟩
  | cons ch rest ih =>
    intro s r v w delta d h hs hv
    obtain ⟨new, hd, hsound, ht⟩ := pushChar_tracks parseFromStr h hs hv path d ch
    obtain ⟨more, hd', hsound', ht'⟩ := ih ht hsound rfl
    refine ⟨new ++ more, ?_, hsound', ?_⟩
    · rw [List.foldl_cons, hd', hd, List.append_assoc]
    · rw [← List.append_assoc]
      exact ht'

theorem emitRecord_provisional {s r : FirewallStream} {v w : List LogEntry} (h : Tracks s v r w)
    {rows : List LogEntry} {delta : FirewallDelta} (hs : delta.Sound rows)
    (hv : v = applyDelta rows delta) (path : Text) :
    (s.emitRecord parseFromStr path delta true).2.Sound rows ∧
      applyDelta rows (s.emitRecord parseFromStr path delta true).2 =
        w ++ [(r.parsed parseFromStr path r.nextId).entry] ∧
      (s.emitRecord parseFromStr path delta true).1 =
        r.overlay (r.nextId + 1) s.observed (some r.nextId)
          (r.parsed parseFromStr path r.nextId).coverage := by
  cases h with
  | settled observed plain fresh =>
    refine ⟨sound_append hs _, ?_, rfl⟩
    show applyDelta rows (delta.append _) = _
    rw [applyDelta_append hs, ← hv]
    rfl
  | shown observed coverage e plain fresh _ visible sameId sameLine =>
    refine ⟨sound_replace hs ?_ ?_, ?_, rfl⟩
    · rw [← hv, FirewallRowReplacement.Targets, List.map_append]
      exact List.mem_append_right _ (by
        simp [rowKey, FirewallRowReplacement.key, sameId, sameLine, overlay])
    · exact Prod.ext (parsed_id _ _ _ _) (parsed_lineNumber _ _ _ _)
    · show applyDelta rows (delta.replace _) = _
      rw [applyDelta_replace, ← hv]
      exact replaceRow_last (fun row hr => Nat.ne_of_lt (fresh row hr)) ⟨sameId, sameLine⟩

theorem parsed_shown {s r : FirewallStream} {v w : List LogEntry} (h : Tracks s v r w)
    (hid : s.provisionalId.isSome = true) (path : Text) :
    r.shows = true ∧ Tracks (r.overlay (r.nextId + 1) s.observed (some r.nextId)
      (r.parsed parseFromStr path r.nextId).coverage)
        (w ++ [(r.parsed parseFromStr path r.nextId).entry]) r w := by
  cases h with
  | settled => cases hid
  | shown observed coverage e plain fresh sameObserved visible =>
    exact ⟨visible, .shown _ _ _ plain fresh sameObserved visible (parsed_id _ _ _ _)
      (parsed_lineNumber _ _ _ _)⟩

theorem pushText_tracks {s r : FirewallStream} {v w : List LogEntry} (h : Tracks s v r w)
    (text path : Text) (d : FirewallDelta) :
    ∃ new, (text.foldl (pushChar parseFromStr path) (r, d)).2.entries = d.entries ++ new ∧
      (s.pushText parseFromStr text path).1.Sound v ∧
      Tracks (s.pushText parseFromStr text path).2
        (applyDelta v (s.pushText parseFromStr text path).1)
        (text.foldl (pushChar parseFromStr path) (r, d)).1 (w ++ new) := by
  have hnone : ({} : FirewallDelta).Sound v := fun rep hrep => by cases hrep
  have happly : v = applyDelta v {} := by simp [applyDelta]
  obtain ⟨new, hd, hsound, ht⟩ := foldl_pushChar_tracks parseFromStr path text (d := d) h hnone happly
  refine ⟨new, hd, ?_⟩
  simp only [pushText]
  generalize text.foldl (pushChar parseFromStr path) (s, {}) = q at hsound ht ⊢
  split
  · rename_i hprov
    obtain ⟨hsound', happly', hstate⟩ := emitRecord_provisional parseFromStr ht hsound rfl path
    refine ⟨hsound', ?_⟩
    have hrows : ∀ x : FirewallStream, applyDelta v (x.finishDelta
        (q.1.emitRecord parseFromStr path q.2 true).2) =
          applyDelta v (q.1.emitRecord parseFromStr path q.2 true).2 := fun _ => rfl
    rw [hrows, happly', hstate]
    exact (parsed_shown parseFromStr ht hprov.2 path).2
  · exact ⟨hsound, ht⟩

theorem tracks_self {r : FirewallStream} {w : List LogEntry} (plain : r.Plain)
    (fresh : ∀ e ∈ w, e.id < r.nextId) : Tracks r w r w := by
  have ht := Tracks.settled r.observed plain fresh (fun _ => rfl)
  rw [overlay_self plain] at ht
  exact ht

/-- Having observed the line under way leaves the relation as it is, and what is
observed then does not depend on the snapshots before. -/
theorem observe_tracks {s r : FirewallStream} {v w : List LogEntry} (h : Tracks s v r w) :
    Tracks s.observe v r w ∧
      s.observe.observed = if r.lineActive then r.nextLine else r.observed := by
  cases h with
  | settled observed plain fresh sameObserved =>
    cases hla : r.lineActive with
    | true =>
      have hx : (r.overlay r.nextId observed none {}).observe =
          r.overlay r.nextId r.nextLine none {} := if_pos hla
      rw [hx]
      exact ⟨.settled _ plain fresh (fun h => by rw [hla] at h; cases h), rfl⟩
    | false =>
      have hx : (r.overlay r.nextId observed none {}).observe =
          r.overlay r.nextId observed none {} := if_neg (by simp [overlay, hla])
      rw [hx]
      exact ⟨.settled _ plain fresh sameObserved, sameObserved hla⟩
  | shown observed coverage e plain fresh sameObserved visible sameId sameLine =>
    cases hla : r.lineActive with
    | true =>
      have hx : (r.overlay (r.nextId + 1) observed (some r.nextId) coverage).observe =
          r.overlay (r.nextId + 1) r.nextLine (some r.nextId) coverage := if_pos hla
      rw [hx]
      exact ⟨.shown _ _ _ plain fresh (fun h => by rw [hla] at h; cases h) visible sameId sameLine,
        rfl⟩
    | false =>
      have hx : (r.overlay (r.nextId + 1) observed (some r.nextId) coverage).observe =
          r.overlay (r.nextId + 1) observed (some r.nextId) coverage :=
        if_neg (by simp [overlay, hla])
      rw [hx]
      exact ⟨.shown _ _ _ plain fresh sameObserved visible sameId sameLine, sameObserved hla⟩

theorem snapshotEof_spec {s r : FirewallStream} {v w : List LogEntry} (h : Tracks s v r w)
    (path : Text) :
    (s.snapshotEof parseFromStr path).1.Sound v ∧
      ((s.snapshotEof parseFromStr path).2, applyDelta v (s.snapshotEof parseFromStr path).1) =
        (let observed := if r.lineActive then r.nextLine else r.observed
         let row := r.parsed parseFromStr path r.nextId
         if r.shows then
          (r.overlay (r.nextId + 1) observed (some r.nextId) row.coverage, w ++ [row.entry])
         else (r.overlay r.nextId observed none {}, w)) := by
  obtain ⟨ht, hobs⟩ := observe_tracks h
  have hshows := (tracks_line ht).1
  have hnone : ({} : FirewallDelta).Sound v := fun rep hrep => by cases hrep
  simp only [snapshotEof, hshows]
  cases hs : r.shows with
  | true =>
    obtain ⟨hsound, happly, hstate⟩ :=
      emitRecord_provisional parseFromStr ht hnone (by simp [applyDelta]) path
    refine ⟨hsound, Prod.ext ?_ happly⟩
    rw [hobs] at hstate
    exact hstate
  | false =>
    obtain ⟨observed, hx, rfl⟩ := tracks_hidden ht hs
    refine ⟨hnone, Prod.ext ?_ (by simp [applyDelta, finishDelta])⟩
    rw [hx] at hobs ⊢
    rw [← hobs]
    rfl

theorem snapshotEof_tracks {s r : FirewallStream} {v w : List LogEntry} (h : Tracks s v r w)
    (path : Text) :
    Tracks (s.snapshotEof parseFromStr path).2 (applyDelta v (s.snapshotEof parseFromStr path).1)
      r w := by
  obtain ⟨plain, fresh⟩ := tracks_fresh h
  obtain ⟨-, heq⟩ := snapshotEof_spec parseFromStr h path
  have hsame : r.lineActive = false →
      (if r.lineActive then r.nextLine else r.observed) = r.observed := by
    intro hla
    rw [hla]
    rfl
  cases hs : r.shows with
  | true =>
    simp only [hs, if_true, Prod.mk.injEq] at heq
    rw [heq.1, heq.2]
    exact .shown _ _ _ plain fresh hsame hs (parsed_id _ _ _ _) (parsed_lineNumber _ _ _ _)
  | false =>
    simp only [hs, Bool.false_eq_true, if_false, Prod.mk.injEq] at heq
    rw [heq.1, heq.2]
    exact .settled _ plain fresh hsame

/-! ## Runs -/

/-- What a consumer of the stream asks of it. -/
inductive StreamCall where
  | pushText (text : Text)
  | snapshotEof
  deriving DecidableEq, Repr

/-- The delta a call returns and the stream after it. -/
def answer (path : Text) (s : FirewallStream) : StreamCall → FirewallDelta × FirewallStream
  | .pushText text => s.pushText parseFromStr text path
  | .snapshotEof => s.snapshotEof parseFromStr path

/-- Make a call and apply its delta to the rows. -/
def call (path : Text) (x : FirewallStream × List LogEntry) (c : StreamCall) :
    FirewallStream × List LogEntry :=
  ((x.1.answer parseFromStr path c).2, applyDelta x.2 (x.1.answer parseFromStr path c).1)

def run (path : Text) (calls : List StreamCall) (x : FirewallStream × List LogEntry) :
    FirewallStream × List LogEntry :=
  calls.foldl (call parseFromStr path) x

def textOf : List StreamCall → Text
  | [] => []
  | .pushText text :: rest => text ++ textOf rest
  | .snapshotEof :: rest => textOf rest

theorem textOf_append (a b : List StreamCall) : textOf (a ++ b) = textOf a ++ textOf b := by
  induction a with
  | nil => rfl
  | cons c rest ih => cases c <;> simp [textOf, ih]

/-- Reading the text once, with nothing shown on the way. -/
def readOnce (path : Text) (nextId nextLine : Nat) (text : Text) : FirewallStream × FirewallDelta :=
  text.foldl (pushChar parseFromStr path) (new nextId nextLine, {})

theorem run_tracks (path : Text) (nextId nextLine : Nat) (calls : List StreamCall) :
    let x := run parseFromStr path calls (new nextId nextLine, [])
    let q := readOnce parseFromStr path nextId nextLine (textOf calls)
    Tracks x.1 x.2 q.1 q.2.entries := by
  induction calls using List.reverseRecOn with
  | nil => exact tracks_self ⟨rfl, rfl⟩ (fun e he => by cases he)
  | append_singleton calls c ih =>
    simp only [run, readOnce, List.foldl_append, List.foldl_cons, List.foldl_nil, call,
      textOf_append] at ih ⊢
    cases c with
    | snapshotEof =>
      simp only [textOf, List.foldl_nil]
      exact snapshotEof_tracks parseFromStr ih path
    | pushText text =>
      obtain ⟨new, hd, -, ht⟩ := pushText_tracks parseFromStr ih text path
        ((textOf calls).foldl (pushChar parseFromStr path) (FirewallStream.new nextId nextLine, {})).2
      simp only [textOf, List.append_nil]
      rw [hd]
      exact ht

theorem textChar_pending {s : FirewallStream} (h : byteLen s.pending ≤ maxFirewallLineBytes)
    (ch : Char) : byteLen (s.textChar ch).pending ≤ maxFirewallLineBytes := by
  unfold textChar
  split_ifs with hpad hover hfit
  · exact h
  · simpa using hfit
  · exact h
  · exact h

theorem pushChar_pending {x : FirewallStream × FirewallDelta}
    (h : byteLen x.1.pending ≤ maxFirewallLineBytes) (path : Text) (ch : Char) :
    byteLen (pushChar parseFromStr path x ch).1.pending ≤ maxFirewallLineBytes := by
  rw [pushChar]
  split_ifs
  · exact Nat.zero_le _
  · exact acceptChar_rule (P := fun s => byteLen s.pending ≤ maxFirewallLineBytes) x.1 ch h
      (fun _ _ h => h) (fun s c h => textChar_pending h c)

theorem readOnce_pending (path : Text) (nextId nextLine : Nat) (text : Text) :
    byteLen (readOnce parseFromStr path nextId nextLine text).1.pending ≤
      maxFirewallLineBytes := by
  induction text using List.reverseRecOn with
  | nil => exact Nat.zero_le _
  | append_singleton text ch ih =>
    rw [readOnce, List.foldl_append]
    exact pushChar_pending parseFromStr ih path ch

/-- Rows, coverage and context do not depend on where the text was cut nor on
when unfinished lines were shown, every replacement finds its row, and the line
kept stays within the cap. -/
theorem run_cut_invariant (path : Text) (nextId nextLine : Nat) (calls : List StreamCall) :
    let start := (new nextId nextLine, ([] : List LogEntry))
    let x := run parseFromStr path calls start
    let cut := run parseFromStr path (calls ++ [.snapshotEof]) start
    let whole := run parseFromStr path [.pushText (textOf calls), .snapshotEof] start
    (cut.2 = whole.2 ∧ cut.1.coverage = whole.1.coverage ∧ cut.1.context = whole.1.context) ∧
    (∀ c : StreamCall, ∀ rep ∈ (x.1.answer parseFromStr path c).1.replacements,
      rep.Targets (x.2 ++ (x.1.answer parseFromStr path c).1.entries)) ∧
    byteLen x.1.pending ≤ maxFirewallLineBytes := by
  have ht := run_tracks parseFromStr path nextId nextLine calls
  have hw := run_tracks parseFromStr path nextId nextLine [.pushText (textOf calls)]
  simp only [textOf, List.append_nil] at hw
  refine ⟨?_, fun c => ?_, ?_⟩
  · have hcut := (snapshotEof_spec parseFromStr ht path).2
    have hwhole := (snapshotEof_spec parseFromStr hw path).2
    have hboth := Prod.ext_iff.mp (hcut.trans hwhole.symm)
    simp only at hboth
    simp only [run, List.foldl_append, List.foldl_cons, List.foldl_nil] at hboth ⊢
    refine ⟨hboth.2, ?_, ?_⟩
    · exact congrArg coverage hboth.1
    · exact congrArg context hboth.1
  · cases c with
    | pushText text =>
      obtain ⟨_, _, hsound, _⟩ := pushText_tracks parseFromStr ht text path {}
      exact fun rep hrep => (hsound rep hrep).1
    | snapshotEof => exact fun rep hrep => ((snapshotEof_spec parseFromStr ht path).1 rep hrep).1
  · have hp := readOnce_pending parseFromStr path nextId nextLine (textOf calls)
    rw [(tracks_line ht).2.1]
    exact hp

end
end FirewallStream
end Firewall
end CmTrace
