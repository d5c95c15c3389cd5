import CmTrace.Firewall.Decoder
import CmTrace.Firewall.Stream

/-!
# Reading a firewall log from its first byte

`snapshotBytes` decodes a whole source, falls back to Windows-1252 when the bytes
are no UTF-8, and shows the unfinished last line as a provisional row.  It leaves
a decoder and a stream that later reads continue.

The ids a stream gives are consecutive: `Numbers` says which ids a delta brings
and which row it may replace, and the pushes and the snapshot keep it.
-/

namespace CmTrace
namespace Firewall

open Log Text

/-- What opening the source answers, without the parser selection. -/
structure ParseResult where
  entries : List LogEntry
  totalLines : Nat
  parseErrors : Nat
  filePath : Text
  fileSize : Nat
  byteOffset : Nat
  firewallCoverage : FirewallCoverage
  deriving DecidableEq, Repr

structure FirewallSourceSnapshot where
  decoder : FirewallDecoder
  stream : FirewallStream
  rawSpans : List RawLineSpan
  contextChanges : List FirewallContextChange
  deriving DecidableEq, Repr

/-- Decode a whole source, as Windows-1252 when forced to or when it is no UTF-8. -/
def decodeSource (bytes : List UInt8) (forceWindows1252 : Bool) :
    Except FirewallDecodeError (DecodedFirewallChunk × FirewallDecoder) :=
  let decoder := if forceWindows1252 then FirewallDecoder.windows1252 else {}
  match decoder.push bytes with
  | (.ok decoded, decoder) => .ok (decoded, decoder)
  | (.error .needsWindows1252, _) =>
    match FirewallDecoder.windows1252.push bytes with
    | (.ok decoded, decoder) => .ok (decoded, decoder)
    | (.error error, _) => .error error
  | (.error error, _) => .error error

section
variable (parseFromStr : Text → Option Int)

/-- The rows of a decoded source and the stream that continues it. -/
def snapshotDecoded (path : Text) (nextId byteCount : Nat) (decoded : DecodedFirewallChunk)
    (decoder : FirewallDecoder) : ParseResult × FirewallSourceSnapshot :=
  let rawSpans := decoded.lines ++ decoder.pendingSpan.toList
  let (delta, stream) := (FirewallStream.new nextId 1).pushText parseFromStr decoded.text path
  let entries := applyDelta [] delta
  let (last, stream) := stream.snapshotEof parseFromStr path
  ({ entries          := applyDelta entries last
     totalLines       := last.observedThroughLine
     parseErrors      := last.coverage.parseErrors
     filePath         := path
     fileSize         := byteCount
     byteOffset       := decoder.rawOffset
     firewallCoverage := last.coverage },
   { decoder        := decoder
     stream         := stream
     rawSpans       := rawSpans
     contextChanges := delta.contextChanges })

def snapshotBytes (bytes : List UInt8) (path : Text) (nextId : Nat) (forceWindows1252 : Bool) :
    Except FirewallDecodeError (ParseResult × FirewallSourceSnapshot) :=
  (decodeSource bytes forceWindows1252).map fun decoded =>
    snapshotDecoded parseFromStr path nextId bytes.length decoded.1 decoded.2

theorem snapshotBytes_ok {bytes : List UInt8} {path : Text} {nextId : Nat} {force : Bool}
    {opened : ParseResult × FirewallSourceSnapshot}
    (h : snapshotBytes parseFromStr bytes path nextId force = .ok opened) :
    ∃ decoded decoder, decodeSource bytes force = .ok (decoded, decoder) ∧
      opened = snapshotDecoded parseFromStr path nextId bytes.length decoded decoder := by
  rw [snapshotBytes] at h
  cases hd : decodeSource bytes force with
  | error e => rw [hd] at h; cases h
  | ok decoded =>
    rw [hd] at h
    cases h
    exact ⟨decoded.1, decoded.2, rfl, rfl⟩

end

/-! ## Row ids -/

/-- A replacement puts a row in the place of the provisional row of `s`. -/
def FirewallRowReplacement.Settles (rep : FirewallRowReplacement) (s : FirewallStream) : Prop :=
  s.provisionalId = some rep.expectedId ∧ rep.expectedLineNumber = s.nextLine ∧ rep.Keeps

/-- From `s` on, the rows of `x` are numbered without a gap, and only the
provisional row of `s` is replaced. -/
structure Numbers (s : FirewallStream) (x : FirewallStream × FirewallDelta) : Prop where
  grows : s.nextId ≤ x.1.nextId
  ids : x.2.entries.map (fun e => e.id) = List.range' s.nextId (x.1.nextId - s.nextId)
  settles : ∀ rep ∈ x.2.replacements, rep.Settles s
  held : x.1.provisionalId = none ∨
    x.1.provisionalId = s.provisionalId ∧ x.1.nextLine = s.nextLine

namespace FirewallStream

theorem numbers_start (s : FirewallStream) : Numbers s (s, {}) :=
  ⟨Nat.le_refl _, by simp, fun rep h => (by cases h), .inr ⟨rfl, rfl⟩⟩

theorem numbers_sameLine {s t u : FirewallStream} {delta : FirewallDelta}
    (h : Numbers s (t, delta)) (hu : SameLine t u) : Numbers s (u, delta) := by
  refine ⟨?_, ?_, h.settles, ?_⟩
  · rw [hu.nextId]
    exact h.grows
  · rw [hu.nextId]
    exact h.ids
  · rw [hu.provisionalId, hu.nextLine]
    exact h.held

section
variable (parseFromStr : Text → Option Int)

theorem emitRecord_numbers {s : FirewallStream} {x : FirewallStream × FirewallDelta}
    (h : Numbers s x) (path : Text) (provisional : Bool)
    (hp : provisional = true → x.1.provisionalId ≠ none) :
    Numbers s (x.1.emitRecord parseFromStr path x.2 provisional) := by
  obtain ⟨t, delta⟩ := x
  cases hid : t.provisionalId with
  | none =>
    have hf : provisional = false := by
      cases provisional with
      | false => rfl
      | true => exact absurd hid (hp rfl)
    subst hf
    have hg : s.nextId ≤ t.nextId := h.grows
    rw [emitRecord_plain parseFromStr hid]
    refine ⟨Nat.le_succ_of_le hg, ?_, h.settles, .inl hid⟩
    show (delta.entries ++ [_]).map _ = List.range' s.nextId (t.nextId + 1 - s.nextId)
    have hids : delta.entries.map (fun e => e.id) = List.range' s.nextId (t.nextId - s.nextId) := h.ids
    rw [List.map_append, hids, List.map_singleton, parsed_id, Nat.succ_sub hg, List.range'_concat,
      Nat.one_mul, Nat.add_sub_cancel' hg]
  | some id =>
    obtain hnone | ⟨hsame, hline⟩ := h.held
    · rw [hid] at hnone
      cases hnone
    have hrep : (⟨id, t.nextLine, (t.parsed parseFromStr path id).entry⟩ :
        FirewallRowReplacement).Settles s :=
      ⟨hsame.symm.trans hid, hline, Prod.ext (parsed_id _ _ _ _) (parsed_lineNumber _ _ _ _)⟩
    have hsettles : ∀ rep ∈ delta.replacements ++
        [(⟨id, t.nextLine, (t.parsed parseFromStr path id).entry⟩ : FirewallRowReplacement)],
          rep.Settles s := by
      intro rep hmem
      rcases List.mem_append.mp hmem with hmem | hmem
      · exact h.settles rep hmem
      · rw [List.mem_singleton.mp hmem]
        exact hrep
    unfold emitRecord
    simp only [hid, Option.getD_some]
    cases provisional with
    | true => exact ⟨h.grows, h.ids, hsettles, .inr ⟨hid ▸ hsame, hline⟩⟩
    | false => exact ⟨h.grows, h.ids, hsettles, .inr ⟨hid ▸ hsame, hline⟩⟩

theorem setContext_sameKeys {s t : FirewallStream} {delta : FirewallDelta}
    (h : Numbers s (t, delta)) (context : FirewallContext) :
    Numbers s (t.setContext context, delta) :=
  ⟨h.grows, h.ids, h.settles, h.held⟩

theorem finishLine_numbers {s t : FirewallStream} {delta : FirewallDelta}
    (h : Numbers s (t, delta)) (path : Text) :
    Numbers s (t.finishLine parseFromStr path delta) := by
  have hline : Numbers s (t.readLine parseFromStr path delta) := by
    rw [readLine_eq]
    split
    · exact emitRecord_numbers parseFromStr (setContext_sameKeys h t.lineContext) path false
        (fun h => by cases h)
    · exact setContext_sameKeys h t.lineContext
  rw [finishLine]
  generalize t.readLine parseFromStr path delta = x at hline ⊢
  obtain ⟨u, d⟩ := x
  simp only
  split
  · exact ⟨hline.grows, hline.ids, hline.settles, .inl rfl⟩
  · exact ⟨hline.grows, hline.ids, hline.settles, .inl rfl⟩

theorem pushChar_numbers {s : FirewallStream} {x : FirewallStream × FirewallDelta}
    (h : Numbers s x) (path : Text) (ch : Char) : Numbers s (pushChar parseFromStr path x ch) := by
  rw [pushChar]
  split
  · exact finishLine_numbers parseFromStr (t := x.1.activate)
      ⟨h.grows, h.ids, h.settles, h.held⟩ path
  · exact numbers_sameLine h (x.1.acceptChar_sameLine ch)

theorem foldl_pushChar_numbers {s : FirewallStream} (path text : Text) :
    ∀ {x : FirewallStream × FirewallDelta}, Numbers s x →
      Numbers s (text.foldl (pushChar parseFromStr path) x) := by
  induction text with
  | nil => intro x h; exact h
  | cons ch rest ih => intro x h; exact ih (pushChar_numbers parseFromStr h path ch)

theorem pushText_numbers (s : FirewallStream) (text path : Text) :
    Numbers s ((s.pushText parseFromStr text path).2, (s.pushText parseFromStr text path).1) := by
  have h := foldl_pushChar_numbers parseFromStr path text s.numbers_start
  simp only [pushText]
  generalize text.foldl (pushChar parseFromStr path) (s, {}) = x at h ⊢
  split
  · rename_i hp
    have he := emitRecord_numbers parseFromStr h path true fun _ => Option.isSome_iff_ne_none.mp hp.2
    exact ⟨he.grows, he.ids, he.settles, he.held⟩
  · exact ⟨h.grows, h.ids, h.settles, h.held⟩

theorem pushText_appends {s : FirewallStream} (h : s.provisionalId = none) (text path : Text) :
    (s.pushText parseFromStr text path).1.replacements = [] ∧
      (s.pushText parseFromStr text path).2.provisionalId = none := by
  have hn := s.pushText_numbers parseFromStr text path
  constructor
  · refine List.eq_nil_iff_forall_not_mem.mpr fun rep hrep => ?_
    have hs := (hn.settles rep hrep).1
    rw [h] at hs
    cases hs
  · rcases hn.held with hnone | ⟨hsame, -⟩
    · exact hnone
    · exact hsame.trans h

theorem snapshotEof_first {s : FirewallStream} (h : s.provisionalId = none) (path : Text) :
    let last := s.snapshotEof parseFromStr path
    last.1.replacements = [] ∧
      ((last.1.entries = [] ∧ last.2.nextId = s.nextId ∧ last.2.provisionalId = none) ∨
        ∃ row, last.1.entries = [row] ∧ rowKey row = (s.nextId, last.2.nextLine) ∧
          last.2.nextId = s.nextId + 1 ∧ last.2.provisionalId = some s.nextId) := by
  have hobs : s.observe.provisionalId = none ∧ s.observe.nextId = s.nextId := by
    unfold observe
    split <;> exact ⟨h, rfl⟩
  intro last
  simp only [last, snapshotEof]
  generalize s.observe = t at hobs ⊢
  obtain ⟨hid, hnext⟩ := hobs
  split
  · unfold emitRecord
    simp only [hid, Option.getD_none, if_true]
    refine ⟨rfl, .inr ⟨(t.parsed parseFromStr path t.nextId).entry, rfl, ?_, ?_, ?_⟩⟩
    · rw [rowKey, parsed_id, parsed_lineNumber, hnext]
    · exact congrArg (· + 1) hnext
    · exact congrArg some hnext
  · exact ⟨rfl, .inl ⟨rfl, hnext, hid⟩⟩

end
end FirewallStream

/-- Opening a source from `nextId` on gives its rows consecutive ids, and the row
the stream may still replace is one of them. -/
theorem snapshotDecoded_numbers (parseFromStr : Text → Option Int) (path : Text)
    (nextId byteCount : Nat) (decoded : DecodedFirewallChunk) (decoder : FirewallDecoder) :
    let opened := snapshotDecoded parseFromStr path nextId byteCount decoded decoder
    let stream := opened.2.stream
    nextId ≤ stream.nextId ∧
      opened.1.entries.map (fun e => e.id) = List.range' nextId (stream.nextId - nextId) ∧
      ∀ id, stream.provisionalId = some id → (id, stream.nextLine) ∈ opened.1.entries.map rowKey := by
  intro opened stream
  have hfresh : (FirewallStream.new nextId 1).provisionalId = none := rfl
  have hn := (FirewallStream.new nextId 1).pushText_numbers parseFromStr decoded.text path
  obtain ⟨hreps, hprov⟩ := FirewallStream.pushText_appends parseFromStr hfresh decoded.text path
  simp only [opened, stream, snapshotDecoded]
  generalize (FirewallStream.new nextId 1).pushText parseFromStr decoded.text path = first
    at hn hreps hprov ⊢
  obtain ⟨delta, s⟩ := first
  have hgrows : nextId ≤ s.nextId := hn.grows
  have hids : delta.entries.map (fun e => e.id) = List.range' nextId (s.nextId - nextId) := hn.ids
  obtain ⟨hlast, hshow⟩ := FirewallStream.snapshotEof_first parseFromStr hprov path
  generalize s.snapshotEof parseFromStr path = last at hlast hshow ⊢
  obtain ⟨d, t⟩ := last
  have hentries : applyDelta (applyDelta [] delta) d = delta.entries ++ d.entries := by
    rw [applyDelta, applyDelta, hlast, hreps]
    rfl
  simp only [hentries]
  rcases hshow with ⟨hnil, hnext, hnone⟩ | ⟨row, hrow, hkey, hnext, hsome⟩
  · rw [hnil, hnext, List.append_nil]
    exact ⟨hgrows, hids, fun id hid => by rw [hnone] at hid; cases hid⟩
  · have hrowid : row.id = s.nextId := congrArg Prod.fst hkey
    rw [hrow, hnext]
    refine ⟨Nat.le_succ_of_le hgrows, ?_, fun id hid => ?_⟩
    · rw [List.map_append, hids, List.map_singleton, hrowid, Nat.succ_sub hgrows,
        List.range'_concat, Nat.one_mul, Nat.add_sub_cancel' hgrows]
    · rw [hsome] at hid
      cases hid
      rw [List.map_append, List.map_singleton, hkey]
      exact List.mem_append_right _ (List.mem_singleton_self _)

end Firewall
end CmTrace
