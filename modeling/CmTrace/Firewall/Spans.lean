import CmTrace.Codec.Slices
import CmTrace.Firewall.Snapshot
import CmTrace.Text.Lines

/-!
# Raw spans and the rows they stand for

The decoder counts lines over bytes and the stream over scalars.  Both are
compared with the physical lines of the text: span number n holds the bytes of
line number n without the padding before it, and a row of line number n shows
that text without its line end, cut at the line cap.
-/

namespace CmTrace
namespace Firewall

open Codec Log Text

/-- The lines of a text, each with its line feed; text after the last line feed is
a line without one. -/
def physicalLines (text : Text) : List Text :=
  (terminated text).1.map (· ++ ['\n']) ++ if (terminated text).2 = [] then [] else [(terminated text).2]

def lineNumberOf (index : Nat) : Nat := min (index + 1) u32Max

def unpadded (line : Text) : Text := line.dropWhile (· == '\x00')

/-- A line without its end.  A carriage return that is last is part of the end
even when no line feed has followed it yet. -/
def withoutEnd (line : Text) : Text :=
  stripCarriageReturn (if line.getLast? = some '\n' then line.dropLast else line)

theorem lineNumberOf_succ (index : Nat) :
    saturatingAdd u32Max (lineNumberOf index) 1 = lineNumberOf (index + 1) := by
  simp only [saturatingAdd, lineNumberOf]
  omega

theorem physicalLines_of_not_mem {text : Text} (h : '\n' ∉ text) :
    physicalLines text = if text = [] then [] else [text] := by
  rw [physicalLines, terminated_of_not_mem h]
  rfl

theorem physicalLines_newline {line : Text} (h : '\n' ∉ line) (rest : Text) :
    physicalLines (line ++ '\n' :: rest) = (line ++ ['\n']) :: physicalLines rest := by
  rw [physicalLines, terminated_newline h]
  rfl

theorem unpadded_newline (line : Text) :
    unpadded (line ++ ['\n']) = unpadded line ++ ['\n'] := by
  rw [unpadded, List.dropWhile_append]
  split
  · rename_i hempty
    have hnil : unpadded line = [] := List.isEmpty_iff.mp hempty
    rw [hnil]
    rfl
  · rfl

/-! ## Spans of decoded items -/

def textOf (items : List (Char × Nat)) : Text := items.map Prod.fst

namespace LineCursor

def atLine (offset index : Nat) : LineCursor :=
  { decodedEnd := offset, lineStart := offset, completedLines := min index u32Max }

theorem atLine_nextLine (offset index : Nat) : (atLine offset index).nextLine = lineNumberOf index := by
  simp only [nextLine, atLine, saturatingAdd, lineNumberOf]
  omega

theorem scalars_text {items : List (Char × Nat)} : ∀ {offset : Nat} {c : LineCursor},
    '\n' ∉ textOf items → c.lineHasText = true → c.decodedEnd = offset →
      ∃ text, scalars offset items c {} =
        ({ c with decodedEnd := offset + widths items }, { text := text, lines := [] }) := by
  induction items with
  | nil =>
    intro offset c _ _ hend
    refine ⟨[], ?_⟩
    rw [scalars, widths_nil, Nat.add_zero, ← hend]
  | cons item items ih =>
    intro offset c hn htext hend
    obtain ⟨ch, width⟩ := item
    simp only [textOf, List.map_cons, List.mem_cons, not_or] at hn
    have hstep : c.scalar {} ch (offset + width) =
        ({ c with decodedEnd := offset + width }, { text := [ch], lines := [] }) := by
      simp [scalar, htext, Ne.symm hn.1]
    obtain ⟨text, hrest⟩ := ih (c := { c with decodedEnd := offset + width }) hn.2 htext rfl
    refine ⟨ch :: text, ?_⟩
    rw [scalars, hstep, scalars_out, hrest, widths_cons, Nat.add_assoc]
    rfl

theorem scalars_line {items : List (Char × Nat)} : ∀ {offset index : Nat}, '\n' ∉ textOf items →
    ∃ padding body text, items = padding ++ body ∧ textOf body = unpadded (textOf items) ∧
      scalars offset items (atLine offset index) {} =
        ({ decodedEnd     := offset + widths items
           lineStart      := offset + widths padding
           completedLines := min index u32Max
           lineHasText    := decide (body ≠ []) }, { text := text, lines := [] }) := by
  induction items with
  | nil =>
    intro offset index _
    exact ⟨[], [], [], rfl, rfl, rfl⟩
  | cons item items ih =>
    intro offset index hn
    obtain ⟨ch, width⟩ := item
    simp only [textOf, List.map_cons, List.mem_cons, not_or] at hn
    by_cases hch : ch = '\x00'
    · subst hch
      have hstep : (atLine offset index).scalar {} '\x00' (offset + width) =
          (atLine (offset + width) index, { text := ['\x00'], lines := [] }) := by
        simp [scalar, atLine]
      obtain ⟨padding, body, text, hitems, hbody, hrest⟩ := ih
        hn.2
      refine ⟨('\x00', width) :: padding, body, '\x00' :: text, ?_, ?_, ?_⟩
      · rw [hitems, List.cons_append]
      · rw [hbody]
        rfl
      · rw [scalars, hstep, scalars_out, hrest, widths_cons, widths_cons, Nat.add_assoc,
          Nat.add_assoc]
        rfl
    · have hstep : (atLine offset index).scalar {} ch (offset + width) =
          ({ atLine offset index with decodedEnd := offset + width, lineHasText := true },
            { text := [ch], lines := [] }) := by
        simp [scalar, atLine, hch, Ne.symm hn.1]
      obtain ⟨text, hrest⟩ := scalars_text
        (c := { atLine offset index with decodedEnd := offset + width, lineHasText := true })
        hn.2 rfl rfl
      refine ⟨[], (ch, width) :: items, ch :: text, rfl, ?_, ?_⟩
      · rw [unpadded, textOf, List.map_cons, List.dropWhile_cons_of_neg (by simpa using hch)]
      · rw [scalars, hstep, scalars_out, hrest, widths_cons, Nat.add_assoc]
        rfl

theorem scalars_text_eq (items : List (Char × Nat)) : ∀ (offset : Nat) (c : LineCursor)
    (out : DecodedFirewallChunk), (scalars offset items c out).2.text = out.text ++ textOf items := by
  induction items with
  | nil => intro offset c out; exact (List.append_nil _).symm
  | cons item items ih =>
    intro offset c out
    have hstep : (c.scalar out item.1 (offset + item.2)).2.text = out.text ++ [item.1] := by
      unfold scalar
      simp only
      split
      · rfl
      · split <;> rfl
    rw [scalars, ih, hstep, List.append_assoc]
    rfl

def pending (c : LineCursor) : Option RawLineSpan :=
  if c.decodedEnd > c.lineStart then some ⟨c.nextLine, c.lineStart, c.decodedEnd⟩ else none

/-- `spans` are where the lines of `items` stand, the first of them being line
`index` at `offset`. -/
structure SpansOf (offset index : Nat) (items : List (Char × Nat)) (spans : List RawLineSpan) :
    Prop where
  stands : ∀ (n : Nat) (span : RawLineSpan), spans[n]? = some span → ∃ before body after line,
    items = before ++ body ++ after ∧ body ≠ [] ∧
      (physicalLines (textOf items))[n]? = some line ∧ textOf body = unpadded line ∧
      span = ⟨lineNumberOf (index + n), offset + widths before,
        offset + widths before + widths body⟩
  ordered : spans.Pairwise fun a b => a.stop ≤ b.start
  present : ∀ (n : Nat) (line : Text), (physicalLines (textOf items))[n]? = some line → unpadded line ≠ [] →
    n < spans.length

theorem spansOf_last {offset index : Nat} {items : List (Char × Nat)}
    (hwidths : ∀ item ∈ items, 0 < item.2) (hn : '\n' ∉ textOf items) :
    SpansOf offset index items
      ((scalars offset items (atLine offset index) {}).2.lines ++
        (scalars offset items (atLine offset index) {}).1.pending.toList) := by
  obtain ⟨padding, body, text, hitems, hbody, hscalars⟩ := scalars_line
    hn
  rw [hscalars, List.nil_append]
  have hlines := physicalLines_of_not_mem hn
  cases body with
  | nil =>
    have hnone : ({ decodedEnd := offset + widths items, lineStart := offset + widths padding
                    completedLines := min index u32Max
                    lineHasText := decide (([] : List (Char × Nat)) ≠ []) } : LineCursor).pending =
        none := by
      rw [hitems, List.append_nil]
      exact if_neg (Nat.lt_irrefl _)
    rw [hnone]
    refine ⟨fun n span h => (by simp at h), List.Pairwise.nil, fun n line hline hne => ?_⟩
    rw [hlines] at hline
    split at hline
    · simp at hline
    · rw [List.getElem?_singleton] at hline
      split at hline
      · cases hline
        exact absurd hbody.symm hne
      · cases hline
  | cons item body =>
    have hpos : 0 < item.2 := hwidths item (by rw [hitems]; simp)
    have hsome : ({ decodedEnd := offset + widths items, lineStart := offset + widths padding
                    completedLines := min index u32Max
                    lineHasText := decide (item :: body ≠ []) } : LineCursor).pending =
        some ⟨lineNumberOf index, offset + widths padding,
          offset + widths padding + widths (item :: body)⟩ := by
      have hgt : offset + widths padding < offset + widths items := by
        rw [hitems, widths_append, widths_cons]
        omega
      have hend : offset + widths items = offset + widths padding + widths (item :: body) := by
        rw [hitems, widths_append, Nat.add_assoc]
      rw [pending, if_pos hgt, ← hend]
      exact congrArg some (by rw [RawLineSpan.mk.injEq]; exact ⟨atLine_nextLine offset index, rfl, rfl⟩)
    have htext : textOf items ≠ [] := by
      rw [hitems, textOf, List.map_append, List.map_cons]
      simp
    rw [hsome]
    rw [if_neg htext] at hlines
    refine ⟨fun n span h => ?_, List.pairwise_singleton _ _, fun n line hline _ => ?_⟩
    · rw [Option.toList_some, List.getElem?_singleton] at h
      split at h
      · rename_i hzero
        cases h
        subst hzero
        exact ⟨padding, item :: body, [], textOf items, by rw [List.append_nil, hitems],
          List.cons_ne_nil _ _, by rw [hlines]; rfl, hbody, rfl⟩
      · cases h
    · rw [hlines, List.getElem?_singleton] at hline
      split at hline
      · rename_i hzero
        simp [hzero]
      · cases hline

theorem spansOf_cons {offset index : Nat} {line rest : List (Char × Nat)} {width : Nat}
    {spans : List RawLineSpan} (hn : '\n' ∉ textOf line) {padding body : List (Char × Nat)}
    (hline : line = padding ++ body) (hbody : textOf body = unpadded (textOf line))
    (h : SpansOf (offset + widths line + width) (index + 1) rest spans) :
    SpansOf offset index (line ++ ('\n', width) :: rest)
      (⟨lineNumberOf index, offset + widths padding, offset + widths line + width⟩ :: spans) := by
  have hlines : physicalLines (textOf (line ++ ('\n', width) :: rest)) =
      (textOf line ++ ['\n']) :: physicalLines (textOf rest) := by
    rw [textOf, List.map_append, List.map_cons]
    exact physicalLines_newline hn _
  refine ⟨fun n span hspan => ?_, ?_, fun n l hl hne => ?_⟩
  · rw [hlines]
    cases n with
    | zero =>
      cases hspan
      refine ⟨padding, body ++ [('\n', width)], rest, _, ?_, by simp, rfl, ?_, ?_⟩
      · rw [hline]
        simp
      · rw [unpadded_newline, ← hbody, textOf, List.map_append]
        rfl
      · rw [RawLineSpan.mk.injEq]
        refine ⟨rfl, rfl, ?_⟩
        rw [hline, widths_append, widths_append, widths_cons, widths_nil]
        omega
    | succ n =>
      obtain ⟨before, inner, after, l, hrest, hne, hl, htext, hspan'⟩ := h.stands n span hspan
      refine ⟨line ++ ('\n', width) :: before, inner, after, l, ?_, hne, hl, htext, ?_⟩
      · rw [hrest]
        simp
      · rw [hspan', widths_append, widths_cons, RawLineSpan.mk.injEq]
        refine ⟨by rw [Nat.add_assoc, Nat.add_comm 1 n], ?_, ?_⟩ <;> simp only <;> omega
  · refine List.pairwise_cons.mpr ⟨fun span hspan => ?_, h.ordered⟩
    obtain ⟨n, hget⟩ := List.mem_iff_getElem?.mp hspan
    obtain ⟨before, inner, after, l, -, -, -, -, hspan'⟩ := h.stands n span hget
    rw [hspan']
    exact Nat.le_add_right _ _
  · rw [hlines] at hl
    cases n with
    | zero => simp
    | succ n =>
      rw [List.length_cons]
      exact Nat.succ_lt_succ (h.present n l hl hne)

theorem spansOf_scalars (items : List (Char × Nat)) : ∀ (offset index : Nat),
    (∀ item ∈ items, 0 < item.2) →
      SpansOf offset index items
        ((scalars offset items (atLine offset index) {}).2.lines ++
          (scalars offset items (atLine offset index) {}).1.pending.toList) := by
  induction hlen : items.length using Nat.strongRecOn generalizing items with
  | ind length ih =>
    intro offset index hwidths
    by_cases hn : '\n' ∈ textOf items
    · -- the first line and the items after its line feed
      obtain ⟨first, others, htext, hfirst⟩ := List.eq_append_cons_of_mem hn
      obtain ⟨line, tail, rfl, hline, htail⟩ := List.map_eq_append_iff.mp htext
      obtain ⟨item, rest, rfl, hitem, -⟩ := List.map_eq_cons_iff.mp htail
      obtain ⟨ch, width⟩ := item
      simp only at hitem
      subst hitem
      have hnl : '\n' ∉ textOf line := by
        rw [textOf, hline]
        exact hfirst
      obtain ⟨padding, body, text, hsplit, hbody, hscalars⟩ := scalars_line
        hnl
      have hrest := ih rest.length
        (by rw [← hlen, List.length_append, List.length_cons]; omega) rest rfl (offset + widths line + width)
        (index + 1) (fun item hi => hwidths item (by simp [hi]))
      have hcons := spansOf_cons hnl hsplit hbody hrest
      have hnewline : scalars offset (line ++ ('\n', width) :: rest) (atLine offset index) {} =
          scalars (offset + widths line + width) rest
            (atLine (offset + widths line + width) (index + 1))
            { text  := text ++ ['\n']
              lines := [⟨lineNumberOf index, offset + widths padding,
                offset + widths line + width⟩] } := by
        rw [scalars_append, hscalars, scalars]
        have hnext := atLine_nextLine offset index
        simp only [nextLine, atLine] at hnext
        simp [scalar, nextLine, atLine, hnext, widths, lineNumberOf]
      rw [hnewline, scalars_out]
      exact hcons
    · exact spansOf_last hwidths hn

end LineCursor

/-! ## What a source decodes to -/

namespace FirewallDecoder

theorem code_instant (encoding : FirewallEncoding) : (code encoding).Instant := by
  cases encoding with
  | utf8 => exact utf8_instant
  | utf16Le => exact utf16_instant true
  | utf16Be => exact utf16_instant false
  | windows1252 => exact windows1252_instant
  | undetermined => exact windows1252_instant

/-- A decoder that has read nothing. -/
structure Fresh (d : FirewallDecoder) : Prop where
  carry : d.carry = []
  rawOffset : d.rawOffset = 0
  cursor : d.toLineCursor = {}

theorem atLine_zero (offset : Nat) :
    LineCursor.atLine offset 0 = { decodedEnd := offset, lineStart := offset } := by
  simp [LineCursor.atLine]

theorem decodeAs_start {d decoder : FirewallDecoder} {start : Nat} {bytes : List UInt8}
    {decoded : DecodedFirewallChunk} (he : d.encoding ≠ .undetermined)
    (hc : d.toLineCursor = LineCursor.atLine start 0)
    (h : d.decodeAs 0 start bytes = .ok (decoded, decoder)) :
    ∃ items carry, decoder.encoding ≠ .undetermined ∧
      (code decoder.encoding).decode (bytes.drop start) = some (items, carry) ∧
        (decoder.toLineCursor, decoded) =
          LineCursor.scalars start items (LineCursor.atLine start 0) {} := by
  rw [decodeAs_eq he, hc, Nat.zero_add] at h
  split at h
  · rename_i items pending hdecode
    cases h
    exact ⟨items, pending, he, hdecode, rfl⟩
  · cases h

theorem decode_fresh {d decoder : FirewallDecoder} (hd : d.Fresh) {bytes : List UInt8}
    {decoded : DecodedFirewallChunk} (h : d.decode bytes = .ok (decoded, decoder)) :
    (decoded = {} ∧ decoder.pendingSpan = none) ∨
    ∃ start items carry, decoder.encoding ≠ .undetermined ∧
      (code decoder.encoding).decode (bytes.drop start) = some (items, carry) ∧
        (decoder.toLineCursor, decoded) =
          LineCursor.scalars start items (LineCursor.atLine start 0) {} := by
  have hbase : d.rawOffset - d.carry.length = 0 := by
    rw [hd.carry, hd.rawOffset]
    rfl
  have hdata : d.carry ++ bytes = bytes := by rw [hd.carry, List.nil_append]
  have hidle : ∀ e : FirewallDecoder, e.toLineCursor = d.toLineCursor → e.pendingSpan = none := by
    intro e he
    have hend : e.decodedEnd = e.lineStart := by rw [he, hd.cursor]
    rw [pendingSpan, hend, if_neg (Nat.lt_irrefl _)]
  have hzero : d.toLineCursor = LineCursor.atLine 0 0 := by rw [hd.cursor, atLine_zero]
  by_cases he : d.encoding = .undetermined
  · by_cases hempty : d.carry ++ bytes = []
    · rw [decode_empty he hempty] at h
      cases h
      exact .inl ⟨rfl, hidle _ rfl⟩
    · by_cases hbom : ∃ x ∈ boms, x.1 <+: d.carry ++ bytes
      · obtain ⟨bom, hb, hp⟩ := hbom
        rw [decode_bom he hb hp, hbase, hdata] at h
        refine .inr ⟨bom.1.length, decodeAs_start (bom_settled hb) ?_ h⟩
        show (d.mark bom).toLineCursor = _
        rw [atLine_zero]
        simp only [mark, hbase, Nat.zero_add, hd.cursor]
      · have hn : ∀ x ∈ boms, ¬ x.1 <+: d.carry ++ bytes := fun x hx hp => hbom ⟨x, hx, hp⟩
        by_cases hbegun : ∃ x ∈ boms, d.carry ++ bytes <+: x.1
        · rw [decode_begun he hempty hn hbegun] at h
          cases h
          exact .inl ⟨rfl, hidle _ rfl⟩
        · rw [decode_plain he hempty hn hbegun, hbase, hdata] at h
          exact .inr ⟨0, decodeAs_start (d := { d with encoding := .utf8 }.advance bytes.length)
            (fun hu => by cases hu) hzero h⟩
  · rw [decode_settled he, hbase, hdata] at h
    exact .inr ⟨0, decodeAs_start (d := d.advance bytes.length) he hzero h⟩

end FirewallDecoder

open FirewallDecoder in
theorem decodeSource_items {bytes : List UInt8} {force : Bool} {decoded : DecodedFirewallChunk}
    {decoder : FirewallDecoder} (h : decodeSource bytes force = .ok (decoded, decoder)) :
    (decoded = {} ∧ decoder.pendingSpan = none) ∨
    ∃ start items carry, decoder.encoding ≠ .undetermined ∧
      (code decoder.encoding).decode (bytes.drop start) = some (items, carry) ∧
        (decoder.toLineCursor, decoded) =
          LineCursor.scalars start items (LineCursor.atLine start 0) {} := by
  have hforced : FirewallDecoder.windows1252.Fresh := ⟨rfl, rfl, rfl⟩
  have hfirst : (if force then FirewallDecoder.windows1252 else {}).Fresh := by
    cases force <;> exact ⟨rfl, rfl, rfl⟩
  have hpushed : ∀ {d : FirewallDecoder}, d.Fresh → d.push bytes = (.ok decoded, decoder) →
      (decoded = {} ∧ decoder.pendingSpan = none) ∨
      ∃ start items carry, decoder.encoding ≠ .undetermined ∧
        (code decoder.encoding).decode (bytes.drop start) = some (items, carry) ∧
          (decoder.toLineCursor, decoded) =
            LineCursor.scalars start items (LineCursor.atLine start 0) {} :=
    fun hd hp => decode_fresh hd (push_ok.mp hp)
  rw [decodeSource] at h
  split at h
  · rename_i out d hp
    cases h
    exact hpushed hfirst hp
  · split at h
    · rename_i out d hp
      cases h
      exact hpushed hforced hp
    · cases h
  · cases h

/-! ## What the stream keeps of a line -/

/-- The stream has read `line` of the line under way, without its padding. -/
structure Reads (s : FirewallStream) (line : Text) : Prop where
  pending : s.pending = takeBytes maxFirewallLineBytes (stripCarriageReturn line)
  oversized : s.oversized = decide (maxFirewallLineBytes < byteLen (stripCarriageReturn line))
  pendingCr : s.pendingCr = decide (line.getLast? = some '\r')

namespace FirewallStream

theorem textChar_reads {s : FirewallStream} {body : Text} {ch : Char}
    (pending : s.pending = takeBytes maxFirewallLineBytes body)
    (oversized : s.oversized = decide (maxFirewallLineBytes < byteLen body))
    (text : ch = '\x00' → body ≠ []) :
    (s.textChar ch).pending = takeBytes maxFirewallLineBytes (body ++ [ch]) ∧
      (s.textChar ch).oversized = decide (maxFirewallLineBytes < byteLen (body ++ [ch])) ∧
      (s.textChar ch).pendingCr = s.pendingCr := by
  have hlen : byteLen (body ++ [ch]) = byteLen body + ch.utf8Size := by simp
  by_cases hover : maxFirewallLineBytes < byteLen body
  · have ho : s.oversized = true := by rw [oversized, decide_eq_true hover]
    have heq : s.textChar ch = s := by simp [textChar, ho]
    rw [heq, takeBytes_append, if_neg (by omega), hlen]
    exact ⟨pending, by rw [ho, decide_eq_true (by omega)], rfl⟩
  · have ho : s.oversized = false := by rw [oversized, decide_eq_false hover]
    have hpending : s.pending = body := by rw [pending, takeBytes_of_le (by omega)]
    have hpad : ¬ (ch = '\x00' ∧ s.pending = [] ∧ s.oversized = false) := by
      rintro ⟨hch, hnil, -⟩
      exact text hch (hpending ▸ hnil)
    by_cases hfit : byteLen body + ch.utf8Size ≤ maxFirewallLineBytes
    · have heq : s.textChar ch = { s with pending := s.pending ++ [ch] } := by
        rw [textChar, if_neg hpad, if_pos ho, hpending, if_pos hfit]
      rw [heq, takeBytes_of_le (by omega), hlen]
      exact ⟨by rw [hpending], by rw [decide_eq_false (by omega)]; exact ho, rfl⟩
    · have heq : s.textChar ch = { s with oversized := true } := by
        rw [textChar, if_neg hpad, if_pos ho, hpending, if_neg hfit]
      have hpos := ch.utf8Size_pos
      rw [heq, takeBytes_append, if_pos (by omega), hlen]
      refine ⟨?_, by rw [decide_eq_true (by omega)], rfl⟩
      rw [takeBytes, if_neg (by omega), List.append_nil]
      exact hpending

theorem stripCarriageReturn_of_ne {line : Text} (h : line.getLast? ≠ some '\r') :
    stripCarriageReturn line = line := by
  rw [stripCarriageReturn, if_neg h]

theorem stripCarriageReturn_append (line : Text) : stripCarriageReturn (line ++ ['\r']) = line := by
  rw [stripCarriageReturn, if_pos List.getLast?_concat, List.dropLast_concat]

theorem acceptChar_reads {s : FirewallStream} {line : Text} {ch : Char} (h : Reads s line)
    (text : ch = '\x00' → line ≠ []) : Reads (s.acceptChar ch) (line ++ [ch]) := by
  -- the carriage return held back belongs to the text after all
  have hheld : ∃ t : FirewallStream, t.pending = takeBytes maxFirewallLineBytes line ∧
      t.oversized = decide (maxFirewallLineBytes < byteLen line) ∧ t.pendingCr = false ∧
      s.acceptChar ch = if ch = '\r' then { t with pendingCr := true } else t.textChar ch := by
    cases hcr : s.pendingCr with
    | true =>
      have hlast := of_decide_eq_true (h.pendingCr.symm.trans hcr)
      obtain ⟨init, rfl⟩ : ∃ init, line = init ++ ['\r'] :=
        List.getLast?_eq_some_iff.mp hlast
      have hp := h.pending
      have ho := h.oversized
      rw [stripCarriageReturn_append] at hp ho
      have ht := @textChar_reads { s.activate with pendingCr := false } _ '\r' hp ho
        (fun h => by cases h)
      refine ⟨{ s.activate with pendingCr := false }.textChar '\r', ht.1, ht.2.1, ht.2.2, ?_⟩
      have hactive : s.activate.pendingCr = true := hcr
      rw [acceptChar, if_pos hactive]
    | false =>
      have hlast := of_decide_eq_false (h.pendingCr.symm.trans hcr)
      have hp := h.pending
      have ho := h.oversized
      rw [stripCarriageReturn_of_ne hlast] at hp ho
      refine ⟨s.activate, hp, ho, hcr, ?_⟩
      have hactive : ¬ s.activate.pendingCr = true := by
        show ¬ s.pendingCr = true
        rw [hcr]
        exact Bool.false_ne_true
      rw [acceptChar, if_neg hactive]
  obtain ⟨t, hp, ho, hcr, heq⟩ := hheld
  rw [heq]
  by_cases hch : ch = '\r'
  · subst hch
    rw [if_pos rfl]
    refine ⟨?_, ?_, ?_⟩
    · rw [stripCarriageReturn_append]
      exact hp
    · rw [stripCarriageReturn_append]
      exact ho
    · rw [List.getLast?_concat, decide_eq_true rfl]
  · have hlast : (line ++ [ch]).getLast? ≠ some '\r' := by
      rw [List.getLast?_concat]
      simpa using hch
    obtain ⟨hp', ho', hcr'⟩ := textChar_reads hp ho text
    rw [if_neg hch]
    refine ⟨?_, ?_, ?_⟩
    · rw [stripCarriageReturn_of_ne hlast]
      exact hp'
    · rw [stripCarriageReturn_of_ne hlast]
      exact ho'
    · rw [hcr', hcr, decide_eq_false hlast]

theorem acceptChar_padding {s : FirewallStream} (h : Reads s []) : Reads (s.acceptChar '\x00') [] := by
  have hcr : s.pendingCr = false := h.pendingCr
  have hpending : s.pending = [] := h.pending
  have ho : s.oversized = false := h.oversized
  have hactive : ¬ s.activate.pendingCr = true := by
    show ¬ s.pendingCr = true
    rw [hcr]
    exact Bool.false_ne_true
  have heq : s.acceptChar '\x00' =
      { s.activate with padding := saturatingAdd u64Max s.padding 1 } := by
    rw [acceptChar, if_neg hactive, if_neg (by decide)]
    have hpad : '\x00' = '\x00' ∧ s.activate.pending = [] ∧ s.activate.oversized = false :=
      ⟨rfl, hpending, ho⟩
    rw [textChar, if_pos hpad]
    rfl
  rw [heq]
  exact ⟨h.pending, h.oversized, h.pendingCr⟩

theorem foldl_pushChar_line (parseFromStr : Text → Option Int) (path : Text) {line : Text}
    (hn : '\n' ∉ line) (s : FirewallStream) (delta : FirewallDelta) :
    line.foldl (pushChar parseFromStr path) (s, delta) = (line.foldl acceptChar s, delta) := by
  induction line generalizing s with
  | nil => rfl
  | cons ch line ih =>
    rw [List.mem_cons, not_or] at hn
    rw [List.foldl_cons, List.foldl_cons, pushChar, if_neg (Ne.symm hn.1), ih hn.2]

theorem foldl_acceptChar_text {line : Text} : ∀ {s : FirewallStream} {sofar : Text},
    Reads s sofar → sofar ≠ [] → Reads (line.foldl acceptChar s) (sofar ++ line) := by
  induction line with
  | nil =>
    intro s sofar h _
    rw [List.append_nil]
    exact h
  | cons ch line ih =>
    intro s sofar h hne
    rw [List.foldl_cons, List.append_cons]
    exact ih (acceptChar_reads h fun _ => hne) (by simp)

theorem foldl_acceptChar_reads (line : Text) : ∀ {s : FirewallStream}, Reads s [] →
    Reads (line.foldl acceptChar s) (unpadded line) := by
  induction line with
  | nil => intro s h; exact h
  | cons ch line ih =>
    intro s h
    rw [List.foldl_cons]
    by_cases hch : ch = '\x00'
    · subst hch
      exact ih (acceptChar_padding h)
    · rw [unpadded, List.dropWhile_cons_of_neg (by simpa using hch)]
      exact foldl_acceptChar_text (acceptChar_reads h fun h => absurd h hch)
        (List.cons_ne_nil _ _)

theorem foldl_acceptChar_sameLine (line : Text) (s : FirewallStream) :
    SameLine s (line.foldl acceptChar s) ∧ (line.foldl acceptChar s).observed = s.observed ∧
      (line.foldl acceptChar s).lineActive = (s.lineActive || decide (line ≠ [])) := by
  induction line generalizing s with
  | nil => exact ⟨⟨rfl, rfl, rfl, rfl, rfl, rfl⟩, rfl, by simp⟩
  | cons ch line ih =>
    obtain ⟨hsame, hobserved, hactive⟩ := ih (s.acceptChar ch)
    have hone : (s.acceptChar ch).observed = s.observed :=
      acceptChar_rule (P := fun x => x.observed = s.observed) s ch rfl (fun _ _ h => h)
        (fun x c h => by
          rw [← h]
          unfold textChar
          split_ifs <;> rfl)
    rw [List.foldl_cons]
    refine ⟨(s.acceptChar_sameLine ch).trans hsame, hobserved.trans hone, ?_⟩
    rw [hactive, acceptChar_lineActive]
    simp

/-- The row shows line number `index`. -/
structure ShowsLine (entry : LogEntry) (index : Nat) (line : Text) : Prop where
  text : unpadded line ≠ []
  lineNumber : entry.lineNumber = lineNumberOf index
  record : ∃ record, entry.firewall = some record ∧
    record.rawLine = takeBytes maxFirewallLineBytes (withoutEnd (unpadded line)) ∧
    record.truncated = decide (maxFirewallLineBytes < byteLen (withoutEnd (unpadded line)))

/-- The stream stands at the start of line number `index`. -/
structure AtLine (s : FirewallStream) (index : Nat) : Prop where
  reads : Reads s []
  nextLine : s.nextLine = lineNumberOf index
  provisionalId : s.provisionalId = none
  lineActive : s.lineActive = false
  observed : s.observed = min index u32Max

section
variable (parseFromStr : Text → Option Int)

theorem parsed_record (s : FirewallStream) (path : Text) (id : Nat) :
    ∃ record, (s.parsed parseFromStr path id).entry.firewall = some record ∧
      record.rawLine = s.pending ∧ record.truncated = s.oversized := by
  cases ho : s.oversized with
  | true =>
    have heq : (s.parsed parseFromStr path id).entry.firewall =
        some { record parseFromStr s.pending s.context with
          truncated := true, recordKind := .malformed, fields := [] } := by
      simp only [parsed, ho, if_true]
      rfl
    exact ⟨_, heq, rfl, rfl⟩
  | false =>
    have heq : (s.parsed parseFromStr path id).entry.firewall =
        some (record parseFromStr s.pending s.context) := by
      simp only [parsed, ho, Bool.false_eq_true, if_false]
      rfl
    exact ⟨_, heq, rfl, rfl⟩

theorem parsed_shows {s : FirewallStream} {index : Nat} {line text : Text} (h : Reads s text)
    (hline : s.nextLine = lineNumberOf index) (hend : withoutEnd (unpadded line) = stripCarriageReturn text)
    (htext : unpadded line ≠ []) (path : Text) (id : Nat) :
    ShowsLine (s.parsed parseFromStr path id).entry index line := by
  obtain ⟨record, hrecord, hraw, htruncated⟩ := s.parsed_record parseFromStr path id
  refine ⟨htext, (parsed_lineNumber _ _ _ _).trans hline, record, hrecord, ?_, ?_⟩
  · rw [hraw, hend]
    exact h.pending
  · rw [htruncated, hend]
    exact h.oversized

theorem withoutEnd_newline (text : Text) :
    withoutEnd (text ++ ['\n']) = stripCarriageReturn text := by
  rw [withoutEnd, if_pos List.getLast?_concat, List.dropLast_concat]

/-- The line feed makes at most one row, which shows the line, and starts the next
line. -/
theorem finishLine_shows {s : FirewallStream} {index : Nat} {line : Text}
    (h : Reads s (unpadded line)) (hline : s.nextLine = lineNumberOf index)
    (hid : s.provisionalId = none) (path : Text) (delta : FirewallDelta) :
    ∃ new, (s.finishLine parseFromStr path delta).2.entries = delta.entries ++ new ∧
      (∀ e ∈ new, ShowsLine e index (line ++ ['\n'])) ∧
      AtLine (s.finishLine parseFromStr path delta).1 (index + 1) := by
  have hread : ∃ new, (s.readLine parseFromStr path delta).2.entries = delta.entries ++ new ∧
      (∀ e ∈ new, ShowsLine e index (line ++ ['\n'])) ∧
      (s.readLine parseFromStr path delta).1.nextLine = s.nextLine := by
    rw [readLine_eq]
    split
    · have hid' : (s.setContext s.lineContext).provisionalId = none := hid
      rw [emitRecord_plain parseFromStr hid']
      refine ⟨[_], rfl, fun e he => ?_, rfl⟩
      rw [List.mem_singleton.mp he]
      refine parsed_shows parseFromStr (s := s.setContext s.lineContext)
        ⟨h.pending, h.oversized, h.pendingCr⟩ hline ?_ ?_ path _
      · rw [unpadded_newline, withoutEnd_newline]
      · rw [unpadded_newline]
        simp
    · exact ⟨[], (List.append_nil _).symm, fun e he => (by cases he), rfl⟩
  obtain ⟨new, hentries, hshows, hnext⟩ := hread
  refine ⟨new, ?_, hshows, ?_⟩
  · rw [← hentries]
    simp only [finishLine]
    split <;> rfl
  · have hclose : (s.finishLine parseFromStr path delta).1 =
        (s.readLine parseFromStr path delta).1.closeLine := rfl
    rw [hclose]
    refine ⟨⟨rfl, rfl, rfl⟩, ?_, rfl, rfl, ?_⟩
    · show saturatingAdd u32Max (s.readLine parseFromStr path delta).1.nextLine 1 = _
      rw [hnext, hline, lineNumberOf_succ]
    · show (s.readLine parseFromStr path delta).1.nextLine = _
      rw [hnext, hline, lineNumberOf]

/-- Reading a text from the start of a line: its rows show its lines, and the stream
is left in the line that follows the last line feed. -/
theorem foldl_pushChar_rows (path text : Text) : ∀ {s : FirewallStream} {index : Nat}
    (delta : FirewallDelta), AtLine s index →
      ∃ new, (text.foldl (pushChar parseFromStr path) (s, delta)).2.entries = delta.entries ++ new ∧
        (∀ e ∈ new, ∃ n line, (physicalLines text)[n]? = some line ∧ ShowsLine e (index + n) line) ∧
        ∃ t, AtLine t (index + (terminated text).1.length) ∧
          (text.foldl (pushChar parseFromStr path) (s, delta)).1 =
            (terminated text).2.foldl acceptChar t := by
  induction hlen : text.length using Nat.strongRecOn generalizing text with
  | ind length ih =>
    intro s index delta h
    by_cases hn : '\n' ∈ text
    · obtain ⟨line, rest, rfl, hline⟩ := List.eq_append_cons_of_mem hn
      obtain ⟨hsame, -, -⟩ := foldl_acceptChar_sameLine line s
      have hreads := foldl_acceptChar_reads line h.reads
      obtain ⟨first, hfirst, hshows, hstart⟩ := finishLine_shows parseFromStr
        (s := (line.foldl acceptChar s).activate)
        ⟨hreads.pending, hreads.oversized, hreads.pendingCr⟩ (hsame.nextLine.trans h.nextLine)
        (hsame.provisionalId.trans h.provisionalId) path delta
      have hstep : (line ++ '\n' :: rest).foldl (pushChar parseFromStr path) (s, delta) =
          rest.foldl (pushChar parseFromStr path)
            ((line.foldl acceptChar s).activate.finishLine parseFromStr path delta) := by
        rw [List.foldl_append, foldl_pushChar_line _ _ hline, List.foldl_cons, pushChar, if_pos rfl]
      rw [hstep]
      generalize (line.foldl acceptChar s).activate.finishLine parseFromStr path delta = x
        at hfirst hstart ⊢
      obtain ⟨u, d⟩ := x
      obtain ⟨new, hnew, hrows, t, ht, hrest⟩ := ih rest.length
        (by rw [← hlen, List.length_append, List.length_cons]; omega) rest rfl d hstart
      rw [physicalLines_newline hline, terminated_newline hline]
      refine ⟨first ++ new, ?_, fun e he => ?_, t, ?_, hrest⟩
      · rw [hnew, hfirst, List.append_assoc]
      · rcases List.mem_append.mp he with he | he
        · exact ⟨0, _, rfl, hshows e he⟩
        · obtain ⟨n, l, hl, hshow⟩ := hrows e he
          rw [Nat.add_assoc, Nat.add_comm 1 n] at hshow
          exact ⟨n + 1, l, hl, hshow⟩
      · rw [List.length_cons, Nat.add_comm _ 1, ← Nat.add_assoc]
        exact ht
    · rw [foldl_pushChar_line _ _ hn, terminated_of_not_mem hn]
      exact ⟨[], (List.append_nil _).symm, fun e he => (by cases he), s, h, rfl⟩

theorem withoutEnd_of_not_mem {text : Text} (h : '\n' ∉ text) :
    withoutEnd text = stripCarriageReturn text := by
  rw [withoutEnd, if_neg fun hlast => h (List.mem_of_getLast? hlast)]

theorem not_mem_unpadded {line : Text} (h : '\n' ∉ line) : '\n' ∉ unpadded line :=
  fun hm => h ((List.dropWhile_sublist _).mem hm)

theorem snapshotEof_shows {s : FirewallStream} {index : Nat} {line : Text} (hn : '\n' ∉ line)
    (h : Reads s (unpadded line)) (hline : s.nextLine = lineNumberOf index)
    (hid : s.provisionalId = none) (hactive : s.lineActive = decide (line ≠ []))
    (hobserved : s.observed = min index u32Max) (path : Text) :
    (s.snapshotEof parseFromStr path).1.replacements = [] ∧
      (∀ e ∈ (s.snapshotEof parseFromStr path).1.entries, ShowsLine e index line) ∧
      (s.snapshotEof parseFromStr path).1.observedThroughLine =
        min (index + if line = [] then 0 else 1) u32Max := by
  have hobs : s.observe.observed = min (index + if line = [] then 0 else 1) u32Max := by
    unfold observe
    by_cases hempty : line = []
    · have hf : ¬ s.lineActive = true := by
        rw [hactive]
        simp [hempty]
      rw [if_neg hf, if_pos hempty]
      exact hobserved
    · have ht : s.lineActive = true := by
        rw [hactive]
        simp [hempty]
      rw [if_pos ht, if_neg hempty]
      exact hline
  have hsame : Reads s.observe (unpadded line) ∧ s.observe.nextLine = lineNumberOf index ∧
      s.observe.provisionalId = none := by
    unfold observe
    split
    · exact ⟨⟨h.pending, h.oversized, h.pendingCr⟩, hline, hid⟩
    · exact ⟨h, hline, hid⟩
  simp only [snapshotEof]
  generalize s.observe = t at hobs hsame ⊢
  obtain ⟨hreads, hnext, hnone⟩ := hsame
  split
  · rename_i hshows
    have htext : unpadded line ≠ [] := by
      intro hnil
      have hp := hreads.pending
      have ho := hreads.oversized
      rw [hnil] at hp ho
      have hp' : t.pending = [] := hp
      have ho' : t.oversized = false := ho
      simp [shows, hp', ho', trim, trimStart, trimEnd] at hshows
    unfold emitRecord
    simp only [hnone, Option.getD_none, if_true]
    refine ⟨rfl, fun e he => ?_, hobs⟩
    rw [List.mem_singleton.mp he]
    exact parsed_shows parseFromStr hreads hnext (withoutEnd_of_not_mem (not_mem_unpadded hn)) htext
      path _
  · exact ⟨rfl, fun e he => (by cases he), hobs⟩

theorem new_atLine (nextId : Nat) : AtLine (new nextId 1) 0 :=
  ⟨⟨rfl, rfl, rfl⟩, rfl, rfl, rfl, rfl⟩

end

end FirewallStream

theorem physicalLines_length (text : Text) :
    (physicalLines text).length =
      (terminated text).1.length + if (terminated text).2 = [] then 0 else 1 := by
  rw [physicalLines, List.length_append, List.length_map]
  split <;> rfl

theorem physicalLines_last {text : Text} (h : (terminated text).2 ≠ []) :
    (physicalLines text)[(terminated text).1.length]? = some (terminated text).2 := by
  rw [physicalLines, if_neg h, List.getElem?_append_right (by rw [List.length_map]), List.length_map,
    Nat.sub_self]
  rfl

section
variable (parseFromStr : Text → Option Int)

open FirewallStream

/-- The rows of an opened source show lines of its text, and it is observed through
its last line. -/
theorem snapshotDecoded_rows (path : Text) (nextId byteCount : Nat)
    (decoded : DecodedFirewallChunk) (decoder : FirewallDecoder) :
    let opened := snapshotDecoded parseFromStr path nextId byteCount decoded decoder
    (∀ e ∈ opened.1.entries, ∃ n line,
      (physicalLines decoded.text)[n]? = some line ∧ ShowsLine e n line) ∧
    opened.1.totalLines = min (physicalLines decoded.text).length u32Max := by
  intro opened
  obtain ⟨new, hnew, hrows, t, ht, hlast⟩ := foldl_pushChar_rows parseFromStr path decoded.text
    (s := FirewallStream.new nextId 1) {} (new_atLine nextId)
  obtain ⟨hsame, hobserved, hactive⟩ :=
    foldl_acceptChar_sameLine (terminated decoded.text).2 t
  have hreads := foldl_acceptChar_reads (terminated decoded.text).2 ht.reads
  rw [← hlast] at hsame hobserved hactive hreads
  rw [Nat.zero_add] at ht
  have hid := hsame.provisionalId.trans ht.provisionalId
  have hpush : (FirewallStream.new nextId 1).pushText parseFromStr decoded.text path =
      (FirewallStream.finishDelta
        (decoded.text.foldl (pushChar parseFromStr path) (FirewallStream.new nextId 1, {})).1
        (decoded.text.foldl (pushChar parseFromStr path) (FirewallStream.new nextId 1, {})).2,
        (decoded.text.foldl (pushChar parseFromStr path) (FirewallStream.new nextId 1, {})).1) := by
    simp only [pushText]
    rw [if_neg fun hp => by rw [hid] at hp; cases hp.2]
  obtain ⟨hreps, -⟩ := pushText_appends parseFromStr (s := FirewallStream.new nextId 1) rfl
    decoded.text path
  obtain ⟨hnone, hshows, hthrough⟩ := snapshotEof_shows parseFromStr (not_mem_lastLine decoded.text)
    hreads (hsame.nextLine.trans ht.nextLine) hid (hactive.trans (by rw [ht.lineActive]; rfl))
    (hobserved.trans ht.observed) path
  simp only [opened, snapshotDecoded]
  rw [hpush] at hreps ⊢
  simp only at hreps ⊢
  generalize decoded.text.foldl (pushChar parseFromStr path) (FirewallStream.new nextId 1, {}) = x
    at hnew hreps hnone hshows hthrough ⊢
  generalize x.1.snapshotEof parseFromStr path = last at hnone hshows hthrough ⊢
  refine ⟨fun e he => ?_, ?_⟩
  · have hentries : applyDelta (applyDelta [] (x.1.finishDelta x.2)) last.1 =
        x.2.entries ++ last.1.entries := by
      rw [applyDelta, applyDelta, hnone, hreps]
      rfl
    rw [hentries, hnew] at he
    rcases List.mem_append.mp he with he | he
    · obtain ⟨n, line, hl, hshow⟩ := hrows e he
      rw [Nat.zero_add] at hshow
      exact ⟨n, line, hl, hshow⟩
    · have hshow := hshows e he
      refine ⟨_, _, physicalLines_last ?_, hshow⟩
      intro hnil
      have htext := hshow.text
      rw [show lastLine decoded.text = [] from hnil] at htext
      exact htext rfl
  · rw [hthrough, physicalLines_length]
    rfl

open FirewallDecoder in
theorem forEncoding_push {encoding : FirewallEncoding} (he : encoding ≠ .undetermined)
    {bytes : List UInt8} {body : List (Char × Nat)}
    (h : (code encoding).decode bytes = some (body, [])) :
    ∃ chunk d, (forEncoding encoding).push bytes = (.ok chunk, d) ∧ chunk.text = textOf body ∧
      d.carry = [] := by
  have hdecode : (forEncoding encoding).decode bytes = .ok
      ((LineCursor.scalars 0 body {} {}).2,
        { (forEncoding encoding).advance bytes.length with
          toLineCursor := (LineCursor.scalars 0 body {} {}).1, carry := [] }) := by
    rw [decode_settled (d := forEncoding encoding) he,
      decodeAs_eq (d := (forEncoding encoding).advance bytes.length) he]
    have henc : ((forEncoding encoding).advance bytes.length).encoding = encoding := rfl
    have hdata : (List.drop 0 ((forEncoding encoding).carry ++ bytes)) = bytes := rfl
    rw [henc, hdata, h]
    rfl
  refine ⟨_, _, push_ok.mpr hdecode, ?_, rfl⟩
  rw [LineCursor.scalars_text_eq]
  rfl

/-- The spans of an opened source point at its lines and its rows. -/
structure Points (bytes : List UInt8) (text : Text)
    (opened : ParseResult × FirewallSourceSnapshot) : Prop where
  ordered : opened.2.rawSpans.Pairwise fun a b => a.stop ≤ b.start
  within : ∀ span ∈ opened.2.rawSpans, span.start < span.stop ∧ span.stop ≤ bytes.length
  counted : opened.1.totalLines = min (physicalLines text).length u32Max
  /-- Span number n is line number n; its bytes decode to the line without padding. -/
  lines : ∀ (n : Nat) (span : RawLineSpan), opened.2.rawSpans[n]? = some span →
    ∃ line chunk d, (physicalLines text)[n]? = some line ∧ span.lineNumber = lineNumberOf n ∧
      (FirewallDecoder.forEncoding opened.2.decoder.encoding).push
        ((bytes.drop span.start).take (span.stop - span.start)) = (.ok chunk, d) ∧
      chunk.text = unpadded line ∧ d.carry = []
  /-- A row shows its line without padding and end, whole or as far as the cap. -/
  rows : ∀ e ∈ opened.1.entries, ∃ n line span record,
    (physicalLines text)[n]? = some line ∧ opened.2.rawSpans[n]? = some span ∧
      e.lineNumber = lineNumberOf n ∧ e.firewall = some record ∧
      (record.truncated = false → record.rawLine = withoutEnd (unpadded line)) ∧
      record.rawLine <+: withoutEnd (unpadded line) ∧
      byteLen record.rawLine ≤ maxFirewallLineBytes ∧
      ∀ shown, shown <+: withoutEnd (unpadded line) → byteLen shown ≤ maxFirewallLineBytes →
        shown <+: record.rawLine

theorem snapshotBytes_points {bytes : List UInt8} {path : Text} {nextId : Nat} {force : Bool}
    {opened : ParseResult × FirewallSourceSnapshot}
    (h : snapshotBytes parseFromStr bytes path nextId force = .ok opened) :
    ∃ decoded, decodeSource bytes force = .ok (decoded, opened.2.decoder) ∧
      Points bytes decoded.text opened := by
  obtain ⟨decoded, decoder, hsource, rfl⟩ := snapshotBytes_ok parseFromStr h
  refine ⟨decoded, hsource, ?_⟩
  obtain ⟨hrows, htotal⟩ :=
    snapshotDecoded_rows parseFromStr path nextId bytes.length decoded decoder
  have hspans : (snapshotDecoded parseFromStr path nextId bytes.length decoded decoder).2.rawSpans =
      decoded.lines ++ decoder.pendingSpan.toList := rfl
  have hdecoder : (snapshotDecoded parseFromStr path nextId bytes.length decoded decoder).2.decoder =
      decoder := rfl
  -- a row has a span as soon as every line with text has one
  have hrow : (∀ n line, (physicalLines decoded.text)[n]? = some line → unpadded line ≠ [] →
      n < (decoded.lines ++ decoder.pendingSpan.toList).length) → ∀ e ∈
        (snapshotDecoded parseFromStr path nextId bytes.length decoded decoder).1.entries,
      ∃ n line span record, (physicalLines decoded.text)[n]? = some line ∧
        (decoded.lines ++ decoder.pendingSpan.toList)[n]? = some span ∧
        e.lineNumber = lineNumberOf n ∧ e.firewall = some record ∧
        (record.truncated = false → record.rawLine = withoutEnd (unpadded line)) ∧
        record.rawLine <+: withoutEnd (unpadded line) ∧
        byteLen record.rawLine ≤ maxFirewallLineBytes ∧
        ∀ shown, shown <+: withoutEnd (unpadded line) → byteLen shown ≤ maxFirewallLineBytes →
          shown <+: record.rawLine := by
    intro hpresent e he
    obtain ⟨n, line, hline, hshow⟩ := hrows e he
    obtain ⟨record, hrecord, hraw, htruncated⟩ := hshow.record
    refine ⟨n, line, _, record, hline, List.getElem?_eq_getElem (hpresent n line hline hshow.text),
      hshow.lineNumber, hrecord, ?_, ?_, ?_, ?_⟩
    · intro hwhole
      rw [htruncated, decide_eq_false_iff_not, not_lt] at hwhole
      rw [hraw, takeBytes_of_le hwhole]
    · rw [hraw]
      exact takeBytes_prefixed _ _
    · rw [hraw]
      exact byteLen_takeBytes_le _ _
    · intro shown hpre hfit
      rw [hraw]
      exact takeBytes_longest hpre hfit
  rcases decodeSource_items hsource with ⟨rfl, hnone⟩ | ⟨start, items, carry, he, hdecode, hscalars⟩
  · rw [hnone] at hspans hrow
    refine ⟨by rw [hspans]; exact List.Pairwise.nil, fun span hspan => ?_, htotal,
      fun n span hspan => ?_, ?_⟩
    · rw [hspans] at hspan
      cases hspan
    · rw [hspans] at hspan
      simp at hspan
    · rw [hspans]
      exact hrow fun n line hline => by
        rw [show physicalLines ({} : DecodedFirewallChunk).text = [] from rfl] at hline
        simp at hline
  · have hpositive : ∀ item ∈ items, 0 < item.2 :=
      (FirewallDecoder.code decoder.encoding).decode_forall (P := fun _ n => 0 < n)
        (fun hd => ((FirewallDecoder.code decoder.encoding).width_bound hd).1) _ hdecode
    have hof := LineCursor.spansOf_scalars items start 0 hpositive
    have htext := LineCursor.scalars_text_eq items start (LineCursor.atLine start 0) {}
    rw [← hscalars] at hof htext
    have htext' : decoded.text = textOf items := htext
    have hpending : decoder.pendingSpan = decoder.toLineCursor.pending := rfl
    rw [← hpending] at hof
    rw [htext'] at hrow htotal ⊢
    have hwidth : ∀ {n : Nat} {span : RawLineSpan}, (decoded.lines ++ decoder.pendingSpan.toList)[n]? = some span →
        span.start < span.stop ∧ span.stop ≤ bytes.length := by
      intro n span hspan
      obtain ⟨before, body, after, line, hitems, hne, -, -, rfl⟩ := hof.stands n span hspan
      have htotalWidth := (FirewallDecoder.code decoder.encoding).decode_widths _ hdecode
      have hbody : 0 < widths body := by
        cases body with
        | nil => exact absurd rfl hne
        | cons item body =>
          have := hpositive item (by rw [hitems]; simp)
          rw [widths_cons]
          omega
      have hall : (items.map Prod.snd).sum = widths before + widths body + widths after := by
        rw [← widths_append, ← widths_append, ← hitems]
        rfl
      rw [List.length_drop] at htotalWidth
      simp only
      omega
    refine ⟨by rw [hspans]; exact hof.ordered, fun span hspan => ?_, htotal,
      fun n span hspan => ?_, by rw [hspans]; exact hrow hof.present⟩
    · rw [hspans] at hspan
      obtain ⟨n, hget⟩ := List.mem_iff_getElem?.mp hspan
      exact hwidth hget
    · rw [hspans] at hspan
      obtain ⟨before, body, after, line, hitems, hne, hline, hbody, rfl⟩ := hof.stands n span hspan
      rw [hitems] at hdecode
      have hslice := (FirewallDecoder.code decoder.encoding).decode_slice
        (FirewallDecoder.code_instant decoder.encoding) hdecode
      rw [List.drop_drop] at hslice
      obtain ⟨chunk, d, hpush, hchunk, hcarry⟩ := forEncoding_push he hslice
      refine ⟨line, chunk, d, hline, by rw [Nat.zero_add], ?_, hchunk.trans hbody, hcarry⟩
      rw [hdecoder]
      simp only [Nat.add_sub_cancel_left]
      exact hpush

end

def markedSource : List UInt8 :=
  [0xFF, 0xFE, 0x00, 0x00, 0x61, 0x00, 0x0D, 0x00, 0x0A, 0x00, 0x62, 0x00]

def markedChunk : DecodedFirewallChunk :=
  { text := ['\x00', 'a', '\r', '\n', 'b'], lines := [⟨1, 4, 10⟩] }

def markedDecoder : FirewallDecoder :=
  { decodedEnd     := 12
    lineStart      := 10
    completedLines := 1
    lineHasText    := true
    encoding       := .utf16Le
    explicitBom    := true
    rawOffset      := 12 }

theorem snapshotBytes_points_marked :
    decodeSource markedSource false = .ok (markedChunk, markedDecoder) ∧
      Points markedSource markedChunk.text
        (snapshotDecoded (fun _ => none) [] 0 12 markedChunk markedDecoder) := by
  have hsource : decodeSource markedSource false = .ok (markedChunk, markedDecoder) := by
    decide +kernel
  have hopened : snapshotBytes (fun _ => none) markedSource [] 0 false =
      .ok (snapshotDecoded (fun _ => none) [] 0 12 markedChunk markedDecoder) := by
    rw [snapshotBytes, hsource]
    rfl
  obtain ⟨decoded, hdecoded, hpoints⟩ := snapshotBytes_points (fun _ => none) hopened
  rw [hsource] at hdecoded
  cases hdecoded
  exact ⟨hsource, hpoints⟩

/-- A carriage return that ends the source belongs to its span but not to its row. -/
theorem snapshotBytes_last_return : ∃ opened,
    snapshotBytes (fun _ => none) [0x61, 0x0D] [] 0 false = .ok opened ∧
      opened.2.rawSpans = [⟨1, 0, 2⟩] ∧
      ((FirewallDecoder.forEncoding opened.2.decoder.encoding).push [0x61, 0x0D]).1 =
        .ok { text := ['a', '\r'] } ∧
      opened.1.entries.map (fun e => (e.lineNumber, e.firewall.map fun r => r.rawLine)) =
        [(1, some ['a'])] := by
  refine ⟨snapshotDecoded (fun _ => none) [] 0 2 { text := ['a', '\r'] }
    { encoding := .utf8, rawOffset := 2, decodedEnd := 2, lineHasText := true }, ?_, ?_, ?_, ?_⟩
  · decide +kernel
  · decide +kernel
  · decide +kernel
  · decide +kernel

end Firewall
end CmTrace
