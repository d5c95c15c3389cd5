import CmTrace.Codec.Utf
import CmTrace.Machine

/-!
# Resumable decoding of firewall logs

`FirewallDecoder` turns the bytes of a growing file into text and the raw spans
of its physical lines.  A push either decodes all it can and keeps the undecided
bytes as carry, or fails and leaves the decoder as it was.

The encoding is settled by the first bytes: a byte-order mark, or UTF-8 when no
mark can still appear.  `decode_append` says that pushing two pieces is pushing
their concatenation; the run theorem at the end lifts it to any list of pieces.
-/

namespace CmTrace
namespace Firewall

open Codec

inductive FirewallEncoding where
  | undetermined
  | utf8
  | windows1252
  | utf16Le
  | utf16Be
  deriving DecidableEq, Repr

inductive FirewallDecodeError where
  | invalidExplicitEncoding
  | needsWindows1252
  deriving DecidableEq, Repr

structure RawLineSpan where
  lineNumber : Nat
  /-- First non-padding raw byte; excludes the byte-order mark. -/
  start : Nat
  /-- One past the last raw byte, the terminator included. -/
  stop : Nat
  deriving DecidableEq, Repr

structure DecodedFirewallChunk where
  text : List Char := []
  lines : List RawLineSpan := []
  deriving DecidableEq, Repr

/-- Where the decoder stands among the physical lines. -/
structure LineCursor where
  decodedEnd : Nat := 0
  lineStart : Nat := 0
  completedLines : Nat := 0
  lineHasText : Bool := false
  deriving DecidableEq, Repr

structure FirewallDecoder extends LineCursor where
  encoding : FirewallEncoding := .undetermined
  explicitBom : Bool := false
  carry : List UInt8 := []
  rawOffset : Nat := 0
  deriving DecidableEq, Repr

namespace DecodedFirewallChunk

def append (a b : DecodedFirewallChunk) : DecodedFirewallChunk :=
  { text := a.text ++ b.text, lines := a.lines ++ b.lines }

theorem append_empty (a : DecodedFirewallChunk) : a.append {} = a := by
  simp [append]

theorem empty_append (a : DecodedFirewallChunk) : append {} a = a := by
  simp [append]

theorem append_assoc (a b c : DecodedFirewallChunk) :
    (a.append b).append c = a.append (b.append c) := by
  simp [append]

/-- All the chunks a run of pushes gave, joined. -/
def join : List DecodedFirewallChunk → DecodedFirewallChunk
  | [] => {}
  | a :: rest => a.append (join rest)

theorem join_text (chunks : List DecodedFirewallChunk) :
    (join chunks).text = (chunks.map fun c => c.text).flatten := by
  induction chunks with
  | nil => rfl
  | cons a rest ih => simp [join, append, ih]

theorem join_lines (chunks : List DecodedFirewallChunk) :
    (join chunks).lines = (chunks.map fun c => c.lines).flatten := by
  induction chunks with
  | nil => rfl
  | cons a rest ih => simp [join, append, ih]

end DecodedFirewallChunk

namespace LineCursor

def nextLine (c : LineCursor) : Nat := saturatingAdd u32Max c.completedLines 1

/-- Account for one decoded scalar that ends at raw offset `stop`. -/
def scalar (c : LineCursor) (out : DecodedFirewallChunk) (ch : Char) (stop : Nat) :
    LineCursor × DecodedFirewallChunk :=
  let out := { out with text := out.text ++ [ch] }
  let c := { c with decodedEnd := stop }
  if ch = '\x00' ∧ c.lineHasText = false then
    -- padding before the first text of a line belongs to no line
    ({ c with lineStart := stop }, out)
  else if ch = '\n' then
    ({ c with completedLines := c.nextLine, lineStart := stop, lineHasText := false },
      { out with lines := out.lines ++ [⟨c.nextLine, c.lineStart, stop⟩] })
  else ({ c with lineHasText := true }, out)

/-- Account for scalars of the given widths, the first of them at `offset`. -/
def scalars : Nat → List (Char × Nat) → LineCursor → DecodedFirewallChunk →
    LineCursor × DecodedFirewallChunk
  | _, [], c, out => (c, out)
  | offset, (ch, width) :: rest, c, out =>
    let next := c.scalar out ch (offset + width)
    scalars (offset + width) rest next.1 next.2

theorem scalar_out (c : LineCursor) (out : DecodedFirewallChunk) (ch : Char) (stop : Nat) :
    c.scalar out ch stop = ((c.scalar {} ch stop).1, out.append (c.scalar {} ch stop).2) := by
  unfold scalar
  simp only
  split
  · simp [DecodedFirewallChunk.append]
  · split <;> simp [DecodedFirewallChunk.append]

theorem scalars_out (items : List (Char × Nat)) : ∀ (offset : Nat) (c : LineCursor)
    (out : DecodedFirewallChunk),
    scalars offset items c out =
      ((scalars offset items c {}).1, out.append (scalars offset items c {}).2) := by
  induction items with
  | nil => intro offset c out; rw [scalars, scalars, out.append_empty]
  | cons item rest ih =>
    intro offset c out
    obtain ⟨ch, width⟩ := item
    rw [scalars, scalars, ih, ih _ _ (c.scalar {} ch (offset + width)).2, c.scalar_out out]
    simp only [DecodedFirewallChunk.append_assoc]

theorem scalars_append (a b : List (Char × Nat)) : ∀ (offset : Nat) (c : LineCursor)
    (out : DecodedFirewallChunk),
    scalars offset (a ++ b) c out =
      scalars (offset + (a.map Prod.snd).sum) b (scalars offset a c out).1
        (scalars offset a c out).2 := by
  induction a with
  | nil => intro offset c out; rfl
  | cons item rest ih =>
    intro offset c out
    obtain ⟨ch, width⟩ := item
    rw [List.cons_append, scalars, scalars, ih, List.map_cons, List.sum_cons, Nat.add_assoc]

end LineCursor

/-- The byte-order marks, in the order they are tried. -/
def boms : List (List UInt8 × FirewallEncoding) :=
  [([0xEF, 0xBB, 0xBF], .utf8), ([0xFF, 0xFE], .utf16Le), ([0xFE, 0xFF], .utf16Be)]

namespace FirewallDecoder

/-- A row at a known raw offset: the mark was handled when the source was opened. -/
def forEncoding (encoding : FirewallEncoding) : FirewallDecoder :=
  { encoding := encoding, explicitBom := encoding != .windows1252 }

def windows1252 : FirewallDecoder := { encoding := .windows1252 }

def pendingSpan (d : FirewallDecoder) : Option RawLineSpan :=
  if d.decodedEnd > d.lineStart then some ⟨d.nextLine, d.lineStart, d.decodedEnd⟩ else none

/-- Decode `data` from `start` on in the decoder's encoding; `base` is the raw
offset of `data`. -/
def decodeAs (d : FirewallDecoder) (base start : Nat) (data : List UInt8) :
    Except FirewallDecodeError (DecodedFirewallChunk × FirewallDecoder) :=
  match d.encoding with
  | .utf8 =>
    match Codec.utf8.decode (data.drop start) with
    | some (items, pending) =>
      let valid := items.map fun item => (item.1, item.1.utf8Size)
      let (cursor, out) := LineCursor.scalars (base + start) valid d.toLineCursor {}
      .ok (out, { d with toLineCursor := cursor, carry := pending })
    | none =>
      .error (if d.explicitBom then .invalidExplicitEncoding else .needsWindows1252)
  | .windows1252 =>
    let text := (data.drop start).map fun b => (windows1252Char b, 1)
    let (cursor, out) := LineCursor.scalars (base + start) text d.toLineCursor {}
    .ok (out, { d with toLineCursor := cursor, carry := [] })
  | .utf16Le | .utf16Be =>
    match (Codec.utf16 (d.encoding == .utf16Le)).decode (data.drop start) with
    | some (items, pending) =>
      let (cursor, out) := LineCursor.scalars (base + start) items d.toLineCursor {}
      .ok (out, { d with toLineCursor := cursor, carry := pending })
    | none => .error .invalidExplicitEncoding
  -- the caller has settled the encoding
  | .undetermined => .ok ({}, d)

def decode (d : FirewallDecoder) (bytes : List UInt8) :
    Except FirewallDecodeError (DecodedFirewallChunk × FirewallDecoder) :=
  let base := d.rawOffset - d.carry.length
  let data := d.carry ++ bytes
  let d := { d with rawOffset := d.rawOffset + bytes.length, carry := [] }
  if d.encoding = .undetermined then
    if data = [] then .ok ({}, d)
    else match boms.find? (fun bom => bom.1.isPrefixOf data) with
      | some (bom, encoding) =>
        let start := base + bom.length
        decodeAs { d with encoding := encoding, explicitBom := true, lineStart := start,
                          decodedEnd := start } base bom.length data
      | none =>
        if boms.any (fun bom => data.isPrefixOf bom.1) then .ok ({}, { d with carry := data })
        else decodeAs { d with encoding := .utf8 } base 0 data
  else decodeAs d base 0 data

/-- Commit nothing on definitive invalid input, raw offset and carry included. -/
def push (d : FirewallDecoder) (bytes : List UInt8) :
    Except FirewallDecodeError DecodedFirewallChunk × FirewallDecoder :=
  match d.decode bytes with
  | .ok (decoded, candidate) => (.ok decoded, candidate)
  | .error error => (.error error, d)

def code : FirewallEncoding → PrefixCode Char
  | .utf8 => Codec.utf8
  | .utf16Le => utf16 true
  | .utf16Be => utf16 false
  | .windows1252 | .undetermined => Codec.windows1252

theorem code_maxCarry (encoding : FirewallEncoding) : (code encoding).maxCarry ≤ 3 := by
  cases encoding <;> decide

def gap (d : FirewallDecoder) : FirewallDecodeError :=
  if d.encoding = .utf8 ∧ d.explicitBom = false then .needsWindows1252
  else .invalidExplicitEncoding

theorem decodeAs_eq {d : FirewallDecoder} (h : d.encoding ≠ .undetermined) (base start : Nat)
    (data : List UInt8) :
    d.decodeAs base start data =
      match (code d.encoding).decode (data.drop start) with
      | some (items, pending) =>
        let r := LineCursor.scalars (base + start) items d.toLineCursor {}
        .ok (r.2, { d with toLineCursor := r.1, carry := pending })
      | none => .error d.gap := by
  rw [decodeAs]
  cases he : d.encoding with
  | undetermined => exact absurd he h
  | utf8 =>
    simp only [code]
    cases hd : Codec.utf8.decode (data.drop start) with
    | none => cases hb : d.explicitBom <;> simp [gap, he, hb]
    | some r => simp only [utf8_decode_utf8Size hd]
  | windows1252 => simp only [code, windows1252_decode]
  | utf16Le =>
    simp only [code, beq_self_eq_true]
    cases (utf16 true).decode (data.drop start) <;> simp [gap, he]
  | utf16Be =>
    have hle : (FirewallEncoding.utf16Be == FirewallEncoding.utf16Le) = false := by decide
    simp only [code, hle]
    cases (utf16 false).decode (data.drop start) <;> simp [gap, he]

/-- The decoder a push decodes with, before it settles what is left over. -/
def advance (d : FirewallDecoder) (n : Nat) : FirewallDecoder :=
  { d with rawOffset := d.rawOffset + n, carry := [] }

/-- The decoder after a byte-order mark at the front of its carry. -/
def mark (d : FirewallDecoder) (bom : List UInt8 × FirewallEncoding) : FirewallDecoder :=
  let start := d.rawOffset - d.carry.length + bom.1.length
  { d with encoding := bom.2, explicitBom := true, lineStart := start, decodedEnd := start }

theorem decode_settled {d : FirewallDecoder} (h : d.encoding ≠ .undetermined)
    (bytes : List UInt8) :
    d.decode bytes =
      (d.advance bytes.length).decodeAs (d.rawOffset - d.carry.length) 0 (d.carry ++ bytes) := by
  rw [decode]
  simp only [if_neg h]
  rfl

theorem decodeAs_encoding {d d' : FirewallDecoder} (h : d.encoding ≠ .undetermined)
    {base start : Nat} {data : List UInt8} {out : DecodedFirewallChunk}
    (hd : d.decodeAs base start data = .ok (out, d')) :
    d'.encoding = d.encoding ∧ d'.rawOffset = d.rawOffset ∧
      d'.carry.length ≤ 3 ∧ d'.carry.length ≤ data.length - start := by
  rw [decodeAs_eq h] at hd
  split at hd
  · rename_i items pending hdec
    cases hd
    have hlen := (code d.encoding).decode_carry_length hdec
    have hmax := code_maxCarry d.encoding
    have hw := (code d.encoding).decode_widths _ hdec
    rw [List.length_drop] at hw
    exact ⟨rfl, rfl, by simp only; omega, by simp only; omega⟩
  · cases hd

theorem decodeAs_append {d : FirewallDecoder} (h : d.encoding ≠ .undetermined) (base start : Nat)
    (a b : List UInt8) (hs : start ≤ a.length) (hr : d.rawOffset = base + a.length) :
    (d.advance b.length).decodeAs base start (a ++ b) =
      (d.decodeAs base start a).bind fun r =>
        (r.2.decode b).map fun r' => (r.1.append r'.1, r'.2) := by
  have hu : (d.advance b.length).encoding ≠ .undetermined := h
  rw [decodeAs_eq hu, decodeAs_eq h]
  have henc : (d.advance b.length).encoding = d.encoding := rfl
  have hcur : (d.advance b.length).toLineCursor = d.toLineCursor := rfl
  have hgap : (d.advance b.length).gap = d.gap := rfl
  rw [henc, hcur, hgap, List.drop_append_of_le_length hs, (code d.encoding).decode_append]
  cases hdec : (code d.encoding).decode (a.drop start) with
  | none => rfl
  | some r =>
    obtain ⟨items, pending⟩ := r
    have hw := (code d.encoding).decode_widths _ hdec
    rw [List.length_drop] at hw
    simp only [Option.bind_some, Except.bind]
    generalize hc : LineCursor.scalars (base + start) items d.toLineCursor {} = res
    obtain ⟨cursor, out⟩ := res
    have hset : ({ d with toLineCursor := cursor, carry := pending } : FirewallDecoder).encoding ≠
        .undetermined := h
    rw [decode_settled hset, decodeAs_eq (by exact h)]
    -- the second push finds the offset the first one stopped at
    have hbase : d.rawOffset - pending.length = base + start + (items.map Prod.snd).sum := by omega
    simp only [advance, List.drop_zero, Nat.add_zero, hbase]
    cases (code d.encoding).decode (pending ++ b) with
    | none => rfl
    | some r' =>
      obtain ⟨items', pending'⟩ := r'
      simp only [Option.map_some, Except.map]
      rw [LineCursor.scalars_append, hc, LineCursor.scalars_out]

theorem bom_unique {x y : List UInt8 × FirewallEncoding} (hx : x ∈ boms) (hy : y ∈ boms)
    {data : List UInt8} (px : x.1 <+: data) (py : y.1 <+: data) : x = y := by
  have hall : ∀ x ∈ boms, ∀ y ∈ boms, (x.1 <+: y.1 ∨ y.1 <+: x.1) → x = y := by decide
  exact hall x hx y hy (List.prefix_or_prefix_of_prefix px py)

theorem find_bom_some {data : List UInt8} {x : List UInt8 × FirewallEncoding} :
    boms.find? (fun bom => bom.1.isPrefixOf data) = some x ↔ x ∈ boms ∧ x.1 <+: data := by
  constructor
  · intro h
    have hp : x.1.isPrefixOf data = true := by have := List.find?_some h; exact this
    exact ⟨List.mem_of_find?_eq_some h, List.isPrefixOf_iff_prefix.mp hp⟩
  · rintro ⟨hx, hp⟩
    cases hf : boms.find? (fun bom => bom.1.isPrefixOf data) with
    | none =>
      have := List.find?_eq_none.mp hf x hx
      exact absurd (List.isPrefixOf_iff_prefix.mpr hp) this
    | some y =>
      have hy : y.1.isPrefixOf data = true := by have := List.find?_some hf; exact this
      rw [bom_unique (List.mem_of_find?_eq_some hf) hx (List.isPrefixOf_iff_prefix.mp hy) hp]

theorem find_bom_none {data : List UInt8} :
    boms.find? (fun bom => bom.1.isPrefixOf data) = none ↔ ∀ x ∈ boms, ¬ x.1 <+: data := by
  rw [List.find?_eq_none]
  simp only [List.isPrefixOf_iff_prefix]

theorem bom_begun {data : List UInt8} :
    boms.any (fun bom => data.isPrefixOf bom.1) = true ↔ ∃ x ∈ boms, data <+: x.1 := by
  rw [List.any_eq_true]
  simp only [List.isPrefixOf_iff_prefix]

theorem bom_settled {x : List UInt8 × FirewallEncoding} (hx : x ∈ boms) : x.2 ≠ .undetermined := by
  have hall : ∀ x ∈ boms, x.2 ≠ .undetermined := by decide
  exact hall x hx

theorem decode_empty {d : FirewallDecoder} (he : d.encoding = .undetermined) {bytes : List UInt8}
    (hd : d.carry ++ bytes = []) : d.decode bytes = .ok ({}, d.advance bytes.length) := by
  rw [decode]
  simp only [he, hd, if_true, advance]

theorem decode_bom {d : FirewallDecoder} (he : d.encoding = .undetermined) {bytes : List UInt8}
    {bom : List UInt8 × FirewallEncoding} (hb : bom ∈ boms) (hp : bom.1 <+: d.carry ++ bytes) :
    d.decode bytes =
      ((d.mark bom).advance bytes.length).decodeAs (d.rawOffset - d.carry.length)
        bom.1.length (d.carry ++ bytes) := by
  have hne : d.carry ++ bytes ≠ [] := by
    intro hd
    rw [hd, List.prefix_nil] at hp
    have hall : ∀ x ∈ boms, x.1 ≠ [] := by decide
    exact hall bom hb hp
  rw [decode]
  simp only [he, if_true, if_neg hne, find_bom_some.mpr ⟨hb, hp⟩]
  rfl

theorem decode_begun {d : FirewallDecoder} (he : d.encoding = .undetermined) {bytes : List UInt8}
    (hne : d.carry ++ bytes ≠ []) (hn : ∀ x ∈ boms, ¬ x.1 <+: d.carry ++ bytes)
    (hb : ∃ x ∈ boms, d.carry ++ bytes <+: x.1) :
    d.decode bytes = .ok ({}, { d.advance bytes.length with carry := d.carry ++ bytes }) := by
  rw [decode]
  simp only [he, if_true, if_neg hne, find_bom_none.mpr hn, if_pos (bom_begun.mpr hb), advance]

theorem decode_plain {d : FirewallDecoder} (he : d.encoding = .undetermined) {bytes : List UInt8}
    (hne : d.carry ++ bytes ≠ []) (hn : ∀ x ∈ boms, ¬ x.1 <+: d.carry ++ bytes)
    (hb : ¬ ∃ x ∈ boms, d.carry ++ bytes <+: x.1) :
    d.decode bytes =
      ({ d with encoding := .utf8 }.advance bytes.length).decodeAs (d.rawOffset - d.carry.length)
        0 (d.carry ++ bytes) := by
  have hb' : ¬ boms.any (fun bom => (d.carry ++ bytes).isPrefixOf bom.1) = true :=
    fun h => hb (bom_begun.mp h)
  rw [decode]
  simp only [he, if_true, if_neg hne, find_bom_none.mpr hn, if_neg hb']
  rfl

theorem advance_append (d : FirewallDecoder) (a b : List UInt8) :
    d.advance (a ++ b).length = (d.advance a.length).advance b.length := by
  simp only [advance, List.length_append, Nat.add_assoc]

theorem decode_append (d : FirewallDecoder) (h : d.carry.length ≤ d.rawOffset)
    (a b : List UInt8) :
    d.decode (a ++ b) =
      (d.decode a).bind fun r => (r.2.decode b).map fun r' => (r.1.append r'.1, r'.2) := by
  have hbase : ∀ s : FirewallDecoder, s.rawOffset = d.rawOffset → (s.advance a.length).rawOffset =
      d.rawOffset - d.carry.length + (d.carry ++ a).length := by
    intro s hs
    simp only [advance, List.length_append, hs]
    omega
  by_cases he : d.encoding = .undetermined
  · by_cases hd : d.carry ++ a = []
    · obtain ⟨hc, rfl⟩ := List.append_eq_nil_iff.mp hd
      have hsame : d.advance ([] : List UInt8).length = d := by
        obtain ⟨cursor, encoding, explicitBom, carry, rawOffset⟩ := d
        simp only at hc
        simp [advance, hc]
      rw [decode_empty he hd, hsame]
      simp only [List.nil_append, Except.bind]
      cases d.decode b <;> simp [Except.map, DecodedFirewallChunk.empty_append]
    · by_cases hbom : ∃ x ∈ boms, x.1 <+: d.carry ++ a
      · obtain ⟨bom, hb, hp⟩ := hbom
        have hp' : bom.1 <+: d.carry ++ (a ++ b) := by
          rw [← List.append_assoc]
          exact hp.trans (List.prefix_append _ _)
        rw [decode_bom he hb hp', decode_bom he hb hp, advance_append, ← List.append_assoc]
        exact decodeAs_append (bom_settled hb) _ _ _ _ hp.length_le (hbase _ rfl)
      · have hn : ∀ x ∈ boms, ¬ x.1 <+: d.carry ++ a := fun x hx hp => hbom ⟨x, hx, hp⟩
        by_cases hbegun : ∃ x ∈ boms, d.carry ++ a <+: x.1
        · -- nothing decided: the second push starts over on all the bytes
          rw [decode_begun he hd hn hbegun]
          simp only [Except.bind]
          have hover : d.decode (a ++ b) =
              ({ d.advance a.length with carry := d.carry ++ a } : FirewallDecoder).decode b := by
            have hoff : d.rawOffset + a.length - (d.carry.length + a.length) =
                d.rawOffset - d.carry.length := by omega
            simp only [decode, advance, List.length_append, List.append_assoc, Nat.add_assoc,
              hoff]
          rw [hover]
          cases ({ d.advance a.length with carry := d.carry ++ a } : FirewallDecoder).decode b <;>
            simp [Except.map, DecodedFirewallChunk.empty_append]
        · -- a mark at the front of all the bytes is one at the front of the first piece or
          -- begins with it
          have hside : ∀ x ∈ boms, ¬ x.1 <+: d.carry ++ (a ++ b) := by
            intro x hx hp
            rw [← List.append_assoc] at hp
            rcases List.prefix_or_prefix_of_prefix hp (List.prefix_append (d.carry ++ a) b) with
              hl | hr
            · exact hn x hx hl
            · exact hbegun ⟨x, hx, hr⟩
          have hbegun' : ¬ ∃ x ∈ boms, d.carry ++ (a ++ b) <+: x.1 := by
            rintro ⟨x, hx, hp⟩
            rw [← List.append_assoc] at hp
            exact hbegun ⟨x, hx, (List.prefix_append _ _).trans hp⟩
          have hne : d.carry ++ (a ++ b) ≠ [] := by
            rw [← List.append_assoc]
            exact List.append_ne_nil_of_left_ne_nil hd b
          rw [decode_plain he hne hside hbegun', decode_plain he hd hn hbegun, advance_append,
            ← List.append_assoc]
          exact decodeAs_append (fun hu => by cases hu) _ _ _ _ (Nat.zero_le _) (hbase _ rfl)
  · rw [decode_settled he, decode_settled he, advance_append, ← List.append_assoc]
    have hu : (d.advance a.length).encoding ≠ .undetermined := he
    exact decodeAs_append hu _ _ _ _ (Nat.zero_le _) (hbase _ rfl)

theorem decode_carry {d d' : FirewallDecoder} {bytes : List UInt8} {out : DecodedFirewallChunk}
    (h : d.carry.length ≤ d.rawOffset) (hd : d.decode bytes = .ok (out, d')) :
    d'.carry.length ≤ 3 ∧ d'.carry.length ≤ d'.rawOffset ∧
      d'.rawOffset = d.rawOffset + bytes.length := by
  have settled : ∀ {s : FirewallDecoder} {base start : Nat}, s.encoding ≠ .undetermined →
      s.rawOffset = d.rawOffset → (s.advance bytes.length).decodeAs base start (d.carry ++ bytes) =
        .ok (out, d') → d'.carry.length ≤ 3 ∧ d'.carry.length ≤ d'.rawOffset ∧
          d'.rawOffset = d.rawOffset + bytes.length := by
    intro s base start hs hr hdec
    obtain ⟨_, hoff, h3, hlen⟩ := decodeAs_encoding (d := s.advance bytes.length) hs hdec
    simp only [advance, hr, List.length_append] at hoff hlen
    exact ⟨h3, by omega, hoff⟩
  by_cases he : d.encoding = .undetermined
  · by_cases hempty : d.carry ++ bytes = []
    · rw [decode_empty he hempty] at hd
      cases hd
      exact ⟨Nat.zero_le 3, Nat.zero_le _, rfl⟩
    · by_cases hbom : ∃ x ∈ boms, x.1 <+: d.carry ++ bytes
      · obtain ⟨bom, hb, hp⟩ := hbom
        rw [decode_bom he hb hp] at hd
        exact settled (s := d.mark bom) (bom_settled hb) rfl hd
      · have hn : ∀ x ∈ boms, ¬ x.1 <+: d.carry ++ bytes := fun x hx hp => hbom ⟨x, hx, hp⟩
        by_cases hbegun : ∃ x ∈ boms, d.carry ++ bytes <+: x.1
        · rw [decode_begun he hempty hn hbegun] at hd
          cases hd
          obtain ⟨bom, hb, hp⟩ := hbegun
          have hall : ∀ x ∈ boms, x.1.length ≤ 3 := by decide
          have h3 := hall bom hb
          have hle := hp.length_le
          rw [List.length_append] at hle
          refine ⟨?_, ?_, rfl⟩
          · rw [List.length_append]
            omega
          · show (d.carry ++ bytes).length ≤ d.rawOffset + bytes.length
            rw [List.length_append]
            omega
        · rw [decode_plain he hempty hn hbegun] at hd
          exact settled (s := { d with encoding := .utf8 }) (fun hu => by cases hu) rfl hd
  · rw [decode_settled he] at hd
    exact settled he rfl hd

/-- `chunks` were pushed one after the other, each of them decoded, and `outs`
and `d'` are what that gave. -/
inductive Accepts : FirewallDecoder → List (List UInt8) → List DecodedFirewallChunk →
    FirewallDecoder → Prop where
  | nil (d : FirewallDecoder) : Accepts d [] [] d
  | cons {d d₁ d' : FirewallDecoder} {chunk : List UInt8} {chunks : List (List UInt8)}
      {out : DecodedFirewallChunk} {outs : List DecodedFirewallChunk} :
      d.push chunk = (.ok out, d₁) → Accepts d₁ chunks outs d' →
        Accepts d (chunk :: chunks) (out :: outs) d'

theorem push_ok {d d' : FirewallDecoder} {bytes : List UInt8} {out : DecodedFirewallChunk} :
    d.push bytes = (.ok out, d') ↔ d.decode bytes = .ok (out, d') := by
  unfold push
  cases d.decode bytes with
  | error e => simp
  | ok r => simp [Prod.ext_iff]

theorem push_error {d d' : FirewallDecoder} {bytes : List UInt8} {e : FirewallDecodeError} :
    d.push bytes = (.error e, d') ↔ d.decode bytes = .error e ∧ d' = d := by
  unfold push
  cases d.decode bytes with
  | error e' => simp [eq_comm]
  | ok r => simp

theorem decode_nil {d : FirewallDecoder} (h : d.carry = []) :
    d.decode [] = .ok ({}, d) := by
  obtain ⟨cursor, encoding, explicitBom, carry, rawOffset⟩ := d
  simp only at h
  subst h
  by_cases he : encoding = .undetermined
  · subst he
    rfl
  · rw [decode_settled he, decodeAs_eq (by exact he)]
    simp [advance, PrefixCode.decode_nil, LineCursor.scalars]

/-- A run of pushes and one push of everything give the same text, the same
spans and the same decoder. -/
theorem accepts_of_decode {d : FirewallDecoder} (h : d.carry.length ≤ d.rawOffset)
    (chunks : List (List UInt8)) : ∀ {first : List UInt8} {out : DecodedFirewallChunk}
      {d' : FirewallDecoder}, d.decode (first ++ chunks.flatten) = .ok (out, d') →
        ∃ outs, Accepts d (first :: chunks) outs d' ∧ DecodedFirewallChunk.join outs = out := by
  induction chunks generalizing d with
  | nil =>
    intro first out d' hd
    rw [List.flatten_nil, List.append_nil] at hd
    exact ⟨[out], .cons (push_ok.mpr hd) (.nil d'), by
      simp [DecodedFirewallChunk.join, DecodedFirewallChunk.append_empty]⟩
  | cons chunk chunks ih =>
    intro first out d' hd
    rw [List.flatten_cons, d.decode_append h] at hd
    cases hf : d.decode first with
    | error e => rw [hf] at hd; cases hd
    | ok r =>
      obtain ⟨out₁, d₁⟩ := r
      rw [hf] at hd
      simp only [Except.bind] at hd
      cases hr : d₁.decode (chunk ++ chunks.flatten) with
      | error e => rw [hr] at hd; cases hd
      | ok r' =>
        obtain ⟨out₂, d₂⟩ := r'
        rw [hr] at hd
        cases hd
        obtain ⟨outs, hacc, hjoin⟩ := ih (decode_carry h hf).2.1 hr
        exact ⟨out₁ :: outs, .cons (push_ok.mpr hf) hacc, by
          rw [DecodedFirewallChunk.join, hjoin]⟩

/-- When one push of everything fails, some piece fails the same way after the
pieces before it were decoded. -/
theorem rejects_of_decode {d : FirewallDecoder} (h : d.carry.length ≤ d.rawOffset)
    (chunks : List (List UInt8)) : ∀ {first : List UInt8} {e : FirewallDecodeError},
      d.decode (first ++ chunks.flatten) = .error e →
        ∃ pre chunk post outs d', first :: chunks = pre ++ chunk :: post ∧
          Accepts d pre outs d' ∧ d'.push chunk = (.error e, d') := by
  induction chunks generalizing d with
  | nil =>
    intro first e hd
    rw [List.flatten_nil, List.append_nil] at hd
    exact ⟨[], first, [], [], d, rfl, .nil d, push_error.mpr ⟨hd, rfl⟩⟩
  | cons chunk chunks ih =>
    intro first e hd
    rw [List.flatten_cons, d.decode_append h] at hd
    cases hf : d.decode first with
    | error e' =>
      rw [hf] at hd
      cases hd
      exact ⟨[], first, chunk :: chunks, [], d, rfl, .nil d, push_error.mpr ⟨hf, rfl⟩⟩
    | ok r =>
      obtain ⟨out₁, d₁⟩ := r
      rw [hf] at hd
      simp only [Except.bind] at hd
      cases hr : d₁.decode (chunk ++ chunks.flatten) with
      | ok r' => rw [hr] at hd; cases hd
      | error e' =>
        rw [hr] at hd
        cases hd
        obtain ⟨pre, bad, post, outs, d', hsplit, hacc, hbad⟩ := ih (decode_carry h hf).2.1 hr
        exact ⟨first :: pre, bad, post, out₁ :: outs, d', by rw [hsplit, List.cons_append],
          .cons (push_ok.mpr hf) hacc, hbad⟩

/-- The invariant of every decoder a run can reach. -/
def Resumable (d : FirewallDecoder) : Prop := d.carry.length ≤ 3 ∧ d.carry.length ≤ d.rawOffset

theorem push_resumable {d : FirewallDecoder} (h : d.Resumable) (bytes : List UInt8) :
    (d.push bytes).2.Resumable := by
  unfold push
  cases hd : d.decode bytes with
  | error e => exact h
  | ok r =>
    have hc := decode_carry h.2 hd
    exact ⟨hc.1, hc.2.1⟩

theorem foldl_push_resumable (chunks : List (List UInt8)) : ∀ {d : FirewallDecoder},
    d.Resumable → (chunks.foldl (fun d chunk => (d.push chunk).2) d).Resumable := by
  induction chunks with
  | nil => intro d h; exact h
  | cons chunk rest ih => intro d h; exact ih (push_resumable h chunk)

/-- Decoding does not depend on where the bytes were cut, and a push that fails
commits nothing.  The decoder is any that carries nothing, as a fresh one does. -/
theorem push_chunk_invariant {d : FirewallDecoder} (fresh : d.carry = [])
    (chunks : List (List UInt8)) :
    (∀ out d', d.push chunks.flatten = (.ok out, d') →
      ∃ outs, Accepts d chunks outs d' ∧
        (outs.map fun o => o.text).flatten = out.text ∧
        (outs.map fun o => o.lines).flatten = out.lines) ∧
    (∀ e d', d.push chunks.flatten = (.error e, d') →
      ∃ pre chunk post outs s, chunks = pre ++ chunk :: post ∧ Accepts d pre outs s ∧
        s.push chunk = (.error e, s)) ∧
    (chunks.foldl (fun d chunk => (d.push chunk).2) d).carry.length ≤ 3 := by
  have hd : d.Resumable := by simp [Resumable, fresh]
  refine ⟨fun out d' hp => ?_, fun e d' hp => ?_, (foldl_push_resumable chunks hd).1⟩
  · cases chunks with
    | nil =>
      rw [List.flatten_nil, push_ok, decode_nil fresh] at hp
      cases hp
      exact ⟨[], .nil d, rfl, rfl⟩
    | cons first chunks =>
      rw [List.flatten_cons, push_ok] at hp
      obtain ⟨outs, hacc, hjoin⟩ := accepts_of_decode hd.2 chunks hp
      exact ⟨outs, hacc, by rw [← hjoin, DecodedFirewallChunk.join_text],
        by rw [← hjoin, DecodedFirewallChunk.join_lines]⟩
  · cases chunks with
    | nil =>
      rw [List.flatten_nil, push_error, decode_nil fresh] at hp
      cases hp.1
    | cons first chunks =>
      rw [List.flatten_cons, push_error] at hp
      exact rejects_of_decode hd.2 chunks hp.1

/-- A mark, a surrogate pair and a line feed, each cut inside. -/
theorem push_chunk_invariant_cut :
    ∃ outs, Accepts {} [[0xFF], [0xFE, 0x3D], [0xD8, 0x00], [0xDE, 0x0A], [0x00]] outs
        { encoding := .utf16Le, explicitBom := true, rawOffset := 8, decodedEnd := 8,
          lineStart := 8, completedLines := 1 } ∧
      (outs.map fun o => o.text).flatten = ['😀', '\n'] ∧
      (outs.map fun o => o.lines).flatten = [⟨1, 2, 8⟩] :=
  (push_chunk_invariant rfl [[0xFF], [0xFE, 0x3D], [0xD8, 0x00], [0xDE, 0x0A], [0x00]]).1
    { text := ['😀', '\n'], lines := [⟨1, 2, 8⟩] } _ (Prod.ext_iff.mpr (by decide +kernel))

end FirewallDecoder
end Firewall
end CmTrace
