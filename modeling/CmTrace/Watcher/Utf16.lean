import CmTrace.Watcher.Decode

/-!
# UTF-16 read by read

Half a unit is carried from read to read, but neither half a surrogate pair nor
the CR of a CR LF.  Reads joined elsewhere give the text of the whole.
-/

namespace CmTrace
namespace Watcher

open Text Codec

/-! ## Texts of joined units -/

theorem units_append (le : Bool) (a b : List UInt8) (h : a.length % 2 = 0) :
    units le (a ++ b) = units le a ++ units le b := by
  match a with
  | [] => rfl
  | [_] => simp at h
  | x :: y :: a =>
    have ha : a.length % 2 = 0 := by
      simp only [List.length_cons] at h
      omega
    rw [List.cons_append, List.cons_append, units, units, units_append le a b ha, List.cons_append]

def PairWhole (u v : Nat) : Prop := ¬ (isHighSurrogate u = true ∧ isLowSurrogate v = true)

/-- Neither a surrogate pair nor a CR LF is cut between these units. -/
def JoinsAt (u v : Nat) : Prop := PairWhole u v ∧ ¬ (u = 0x0D ∧ v = 0x0A)

instance (u v : Nat) : Decidable (PairWhole u v) := inferInstanceAs (Decidable (¬ _))

instance (u v : Nat) : Decidable (JoinsAt u v) := inferInstanceAs (Decidable (_ ∧ _))

def loneUnit (u : Nat) : Char :=
  if isHighSurrogate u || isLowSurrogate u then '\uFFFD' else Char.ofNat u

theorem fromUtf16Lossy_single (u : Nat) : fromUtf16Lossy [u] = [loneUnit u] := rfl

theorem fromUtf16Lossy_lone {u v : Nat} (h : PairWhole u v) (rest : List Nat) :
    fromUtf16Lossy (u :: v :: rest) = loneUnit u :: fromUtf16Lossy (v :: rest) := by
  rw [fromUtf16Lossy, if_neg (by rwa [Bool.and_eq_true])]
  rfl

theorem fromUtf16Lossy_pair {u v : Nat} (hu : isHighSurrogate u = true)
    (hv : isLowSurrogate v = true) (rest : List Nat) :
    fromUtf16Lossy (u :: v :: rest) =
      Char.ofNat (0x10000 + (u - 0xD800) * 0x400 + (v - 0xDC00)) :: fromUtf16Lossy rest := by
  rw [fromUtf16Lossy, if_pos (by rw [hu, hv]; rfl)]

theorem fromUtf16Lossy_ne_nil (u : Nat) (us : List Nat) : fromUtf16Lossy (u :: us) ≠ [] := by
  cases us with
  | nil => exact List.cons_ne_nil _ _
  | cons v us =>
    rw [fromUtf16Lossy]
    split_ifs <;> exact List.cons_ne_nil _ _

theorem fromUtf16Lossy_append (us vs : List Nat)
    (h : ∀ u ∈ us.getLast?, ∀ v ∈ vs.head?, PairWhole u v) :
    fromUtf16Lossy (us ++ vs) = fromUtf16Lossy us ++ fromUtf16Lossy vs := by
  match us with
  | [] => rfl
  | [u] =>
    cases vs with
    | nil => rfl
    | cons v vs =>
      have hp := h u rfl v rfl
      rw [List.singleton_append, fromUtf16Lossy_lone hp, fromUtf16Lossy_single]
      rfl
  | u :: w :: us =>
    have hlast : (u :: w :: us).getLast? = (w :: us).getLast? := List.getLast?_cons_cons
    rw [hlast] at h
    by_cases hp : PairWhole u w
    · have ih := fromUtf16Lossy_append (w :: us) vs h
      rw [List.cons_append, List.cons_append, fromUtf16Lossy_lone hp, fromUtf16Lossy_lone hp,
        ← List.cons_append, ih, List.cons_append]
    · rw [PairWhole, not_not] at hp
      have hrest : ∀ u ∈ us.getLast?, ∀ v ∈ vs.head?, PairWhole u v := by
        intro x hx v hv
        cases us with
        | nil => cases hx
        | cons y us => exact h x (by rwa [List.getLast?_cons_cons]) v hv
      rw [List.cons_append, List.cons_append, fromUtf16Lossy_pair hp.1 hp.2,
        fromUtf16Lossy_pair hp.1 hp.2, fromUtf16Lossy_append us vs hrest, List.cons_append]

theorem ofNat_inj_of_pos {n : Nat} {c : Char} (hc : 0 < c.toNat) (h : Char.ofNat n = c) :
    n = c.toNat := by
  have hval := congrArg Char.toNat h
  rw [Char.toNat_ofNat] at hval
  split_ifs at hval with hn
  · exact hval
  · omega

theorem loneUnit_ascii {u : Nat} {c : Char} (hc : 0 < c.toNat ∧ c.toNat < 0x80)
    (h : loneUnit u = c) : u = c.toNat := by
  rw [loneUnit] at h
  split_ifs at h
  · have hlarge : ('\uFFFD').toNat = 0xFFFD := rfl
    rw [h] at hlarge
    omega
  · exact ofNat_inj_of_pos hc.1 h

theorem pair_not_ascii {u v : Nat} {c : Char} (hc : 0 < c.toNat ∧ c.toNat < 0x80) :
    Char.ofNat (0x10000 + (u - 0xD800) * 0x400 + (v - 0xDC00)) ≠ c := by
  intro h
  have hval := ofNat_inj_of_pos hc.1 h
  omega

theorem getLast?_fromUtf16Lossy {us : List Nat} {c : Char} (hc : 0 < c.toNat ∧ c.toNat < 0x80)
    (h : (fromUtf16Lossy us).getLast? = some c) : us.getLast? = some c.toNat := by
  match us with
  | [] => cases h
  | [u] =>
    rw [fromUtf16Lossy_single, List.getLast?_singleton, Option.some_inj] at h
    rw [List.getLast?_singleton, loneUnit_ascii hc h]
  | u :: v :: us =>
    rw [List.getLast?_cons_cons]
    by_cases hp : PairWhole u v
    · have hne : fromUtf16Lossy (v :: us) ≠ [] := by
        cases us with
        | nil => exact List.cons_ne_nil _ _
        | cons w us =>
          rw [fromUtf16Lossy]
          split_ifs <;> exact List.cons_ne_nil _ _
      rw [fromUtf16Lossy_lone hp, List.getLast?_cons_of_ne_nil hne] at h
      exact getLast?_fromUtf16Lossy hc h
    · rw [PairWhole, not_not] at hp
      rw [fromUtf16Lossy_pair hp.1 hp.2] at h
      cases us with
      | nil => exact absurd (Option.some_inj.mp h) (pair_not_ascii hc)
      | cons w us =>
        rw [List.getLast?_cons_of_ne_nil (fromUtf16Lossy_ne_nil w us)] at h
        rw [List.getLast?_cons_cons]
        exact getLast?_fromUtf16Lossy hc h

theorem head?_fromUtf16Lossy {us : List Nat} {c : Char} (hc : 0 < c.toNat ∧ c.toNat < 0x80)
    (h : (fromUtf16Lossy us).head? = some c) : us.head? = some c.toNat := by
  match us with
  | [] => cases h
  | [u] => exact congrArg some (loneUnit_ascii hc (Option.some_inj.mp h))
  | u :: v :: us =>
    by_cases hp : PairWhole u v
    · rw [fromUtf16Lossy_lone hp] at h
      exact congrArg some (loneUnit_ascii hc (Option.some_inj.mp h))
    · rw [PairWhole, not_not] at hp
      rw [fromUtf16Lossy_pair hp.1 hp.2] at h
      exact absurd (Option.some_inj.mp h) (pair_not_ascii hc)

theorem replaceCrLf_append (a b : Text) (h : ¬ (a.getLast? = some '\r' ∧ b.head? = some '\n')) :
    replaceCrLf (a ++ b) = replaceCrLf a ++ replaceCrLf b := by
  match a with
  | [] => rfl
  | [c] =>
    cases b with
    | nil => rfl
    | cons d b =>
      have hcd : ¬ (c = '\r' ∧ d = '\n') := by simpa using h
      have hstep : replaceCrLf (c :: d :: b) = c :: replaceCrLf (d :: b) := by
        rw [replaceCrLf, if_neg hcd]
      exact hstep
  | c :: d :: a =>
    rw [List.getLast?_cons_cons] at h
    rw [List.cons_append, List.cons_append, replaceCrLf, replaceCrLf]
    split_ifs with hcd
    · have ha : ¬ (a.getLast? = some '\r' ∧ b.head? = some '\n') := by
        intro hj
        cases a with
        | nil => cases hj.1
        | cons e a => exact h ⟨by rw [List.getLast?_cons_cons]; exact hj.1, hj.2⟩
      rw [replaceCrLf_append a b ha, List.cons_append]
    · have ih := replaceCrLf_append (d :: a) b h
      rw [← List.cons_append, ih, List.cons_append]

theorem text_append (us vs : List Nat) (h : ∀ u ∈ us.getLast?, ∀ v ∈ vs.head?, JoinsAt u v) :
    replaceCrLf (fromUtf16Lossy (us ++ vs)) =
      replaceCrLf (fromUtf16Lossy us) ++ replaceCrLf (fromUtf16Lossy vs) := by
  rw [fromUtf16Lossy_append us vs fun u hu v hv => (h u hu v hv).1]
  refine replaceCrLf_append _ _ fun hcut => ?_
  have hcr := getLast?_fromUtf16Lossy (c := '\r') (by decide) hcut.1
  have hlf := head?_fromUtf16Lossy (c := '\n') (by decide) hcut.2
  exact (h _ hcr _ hlf).2 ⟨rfl, rfl⟩

/-! ## A run of reads -/

namespace TailReader

variable {I : Type}

def installed (r : TailReader I) (buffer : List UInt8) (encoding : FileEncoding)
    (decoded : DecodedTailBytes) : TailReader I :=
  { r with
    byteOffset           := r.byteOffset + buffer.length
    encoding             := encoding
    pendingByte          := decoded.pendingByte
    pendingUtf8Bytes     := decoded.pendingUtf8Bytes
    pendingUtf8Selection := decoded.pendingUtf8Selection }

/-- The encoding a read decodes in: at the beginning of the file it is detected
from what is read. -/
def readEncoding (r : TailReader I) (buffer : List UInt8) : FileEncoding :=
  if r.byteOffset = 0 then detectEncoding buffer else r.encoding

/-- The texts of successive reads of a growing file. -/
def decodeReads (rs : EncodingRs) (r : TailReader I) :
    List (List UInt8) → Except TailError (Text × TailReader I)
  | [] => .ok ([], r)
  | buffer :: buffers => do
    let decoded ← r.decodeTailBytes rs buffer (r.readEncoding buffer) false
    let later ← (r.installed buffer (r.readEncoding buffer) decoded).decodeReads rs buffers
    return (decoded.text ++ later.1, later.2)

end TailReader

def wholeUnits (bytes : List UInt8) : List UInt8 := bytes.take (bytes.length - bytes.length % 2)

def halfUnit (bytes : List UInt8) : Option UInt8 := bytes[bytes.length - bytes.length % 2]?

/-- Every read after `last` begins where no pair and no CR LF is cut, and with
no unit that looks like a mark. -/
def CutsJoin (le : Bool) : Option Nat → Option UInt8 → List (List UInt8) → Prop
  | _, _, [] => True
  | last, half, buffer :: buffers =>
    let bytes := half.toList ++ buffer
    let read := units le (wholeUnits bytes)
    looksMarked (wholeUnits bytes) = false ∧ (∀ u ∈ last, ∀ v ∈ read.head?, JoinsAt u v) ∧
      CutsJoin le (read.getLast?.or last) (halfUnit bytes) buffers

def markOf (le : Bool) : List UInt8 := if le then utf16LeMark else utf16BeMark

def encodingOf (le : Bool) : FileEncoding := if le then .utf16Le else .utf16Be

theorem whole_half (bytes : List UInt8) : wholeUnits bytes ++ (halfUnit bytes).toList = bytes := by
  have hle : bytes.length % 2 ≤ bytes.length := Nat.mod_le _ _
  rcases Nat.mod_two_eq_zero_or_one bytes.length with h | h
  · rw [wholeUnits, halfUnit, h, Nat.sub_zero, List.take_length, List.getElem?_eq_none (Nat.le_refl _)]
    exact List.append_nil _
  · have hlt : bytes.length - bytes.length % 2 < bytes.length := by omega
    rw [wholeUnits, halfUnit, List.getElem?_eq_getElem hlt, Option.toList_some, ← List.take_succ_eq_append_getElem hlt]
    exact List.take_of_length_le (by omega)

theorem wholeUnits_length (bytes : List UInt8) : (wholeUnits bytes).length % 2 = 0 := by
  rw [wholeUnits, List.length_take]
  omega

theorem wholeUnits_append {a : List UInt8} (h : a.length % 2 = 0) (b : List UInt8) :
    wholeUnits (a ++ b) = a ++ wholeUnits b := by
  have hlen : (a ++ b).length - (a ++ b).length % 2 = a.length + (b.length - b.length % 2) := by
    rw [List.length_append]
    omega
  rw [wholeUnits, hlen, List.take_length_add_append]
  rfl

theorem halfUnit_append {a : List UInt8} (h : a.length % 2 = 0) (b : List UInt8) :
    halfUnit (a ++ b) = halfUnit b := by
  have hlen : (a ++ b).length - (a ++ b).length % 2 = a.length + (b.length - b.length % 2) := by
    rw [List.length_append]
    omega
  rw [halfUnit, hlen, List.getElem?_append_right (Nat.le_add_right _ _), Nat.add_sub_cancel_left]
  rfl

theorem wholeUnits_read (a b : List UInt8) :
    wholeUnits (a ++ b) = wholeUnits a ++ wholeUnits ((halfUnit a).toList ++ b) ∧
      halfUnit (a ++ b) = halfUnit ((halfUnit a).toList ++ b) := by
  have ha := whole_half a
  have hsplit : a ++ b = wholeUnits a ++ ((halfUnit a).toList ++ b) := by
    rw [← List.append_assoc, ha]
  rw [hsplit]
  exact ⟨wholeUnits_append (wholeUnits_length a) _, halfUnit_append (wholeUnits_length a) _⟩

theorem looksMarked_append {a b : List UInt8} (h : looksMarked (a ++ b) = false) :
    looksMarked a = false := by
  have hgrow : ∀ mark : List UInt8, mark.isPrefixOf (a ++ b) = false → mark.isPrefixOf a = false := by
    intro mark hm
    rw [Bool.eq_false_iff, ne_eq, List.isPrefixOf_iff_prefix] at hm ⊢
    exact fun hp => hm (hp.trans (List.prefix_append a b))
  simp only [looksMarked, Bool.or_eq_false_iff] at h ⊢
  exact ⟨⟨hgrow _ h.1.1, hgrow _ h.1.2⟩, hgrow _ h.2⟩

theorem detectEncoding_mark {le : Bool} {bytes : List UInt8}
    (h : (markOf le).isPrefixOf bytes = true) : detectEncoding bytes = encodingOf le := by
  cases le with
  | true => exact if_pos h
  | false =>
    rw [List.isPrefixOf_iff_prefix] at h
    obtain ⟨rest, rfl⟩ := h
    rfl

section

variable {rs : EncodingRs} (hrs : rs.Utf16Exact)
include hrs

theorem decodeBytes_unmarked (le : Bool) {bytes : List UInt8} (hm : looksMarked bytes = false)
    (hlen : bytes.length % 2 = 0) :
    decodeBytes rs bytes (encodingOf le) = replaceCrLf (fromUtf16Lossy (units le bytes)) := by
  have hmarks : utf16LeMark.isPrefixOf bytes = false ∧ utf16BeMark.isPrefixOf bytes = false := by
    simp only [looksMarked, Bool.or_eq_false_iff] at hm
    exact ⟨hm.1.2, hm.2⟩
  cases le with
  | true =>
    simp only [encodingOf, if_true, decodeBytes, stripMark, hmarks.1, Bool.false_eq_true, if_false]
    rw [hrs true bytes hm hlen]
  | false =>
    simp only [encodingOf, Bool.false_eq_true, if_false, decodeBytes, stripMark, hmarks.2]
    rw [hrs false bytes hm hlen]

theorem decodeBytes_marked (le : Bool) {bytes : List UInt8}
    (hm : (markOf le).isPrefixOf bytes = true) (hlen : bytes.length % 2 = 0)
    (hplain : looksMarked (bytes.drop 2) = false) :
    decodeBytes rs bytes (encodingOf le) =
      replaceCrLf (fromUtf16Lossy (units le (bytes.drop 2))) := by
  have hdrop : (bytes.drop 2).length % 2 = 0 := by
    rw [List.length_drop]
    omega
  cases le with
  | true =>
    have hstrip : stripMark utf16LeMark bytes = bytes.drop 2 := if_pos hm
    rw [encodingOf, if_pos rfl, decodeBytes, hstrip, hrs true _ hplain hdrop]
  | false =>
    have hstrip : stripMark utf16BeMark bytes = bytes.drop 2 := if_pos hm
    rw [encodingOf, if_neg Bool.false_ne_true, decodeBytes, hstrip, hrs false _ hplain hdrop]

end

namespace TailReader

variable {I : Type}

theorem decodeTailBytes_utf16 (rs : EncodingRs) (r : TailReader I) (buffer : List UInt8) (le : Bool) :
    r.decodeTailBytes rs buffer (encodingOf le) false =
      .ok { text        := decodeBytes rs (wholeUnits (r.pendingByte.toList ++ buffer)) (encodingOf le)
            pendingByte := halfUnit (r.pendingByte.toList ++ buffer) } := by
  have hne : encodingOf le ≠ .utf8 := by cases le <;> decide
  rw [decodeTailBytes, if_pos hne]
  rfl

theorem decodeReads_join {rs : EncodingRs} (hrs : rs.Utf16Exact) (le : Bool)
    (buffers : List (List UInt8)) (r : TailReader I) (us : List Nat)
    (hr : r.encoding = encodingOf le ∧ r.byteOffset ≠ 0)
    (hcuts : CutsJoin le us.getLast? r.pendingByte buffers) :
    ∃ text r', r.decodeReads rs buffers = .ok (text, r') ∧
      r'.pendingByte = halfUnit (r.pendingByte.toList ++ buffers.flatten) ∧
      replaceCrLf (fromUtf16Lossy
          (us ++ units le (wholeUnits (r.pendingByte.toList ++ buffers.flatten)))) =
        replaceCrLf (fromUtf16Lossy us) ++ text := by
  induction buffers generalizing r us with
  | nil =>
    refine ⟨[], r, rfl, ?_, ?_⟩
    · cases r.pendingByte <;> rfl
    · have hnone : units le (wholeUnits (r.pendingByte.toList ++ [].flatten)) = [] := by
        cases r.pendingByte <;> rfl
      rw [hnone, List.append_nil, List.append_nil]
  | cons buffer buffers ih =>
    obtain ⟨hmark, hjoin, hrest⟩ := hcuts
    have henc : r.readEncoding buffer = encodingOf le := by
      rw [readEncoding, if_neg hr.2, hr.1]
    have hdec := r.decodeTailBytes_utf16 rs buffer le
    rw [decodeBytes_unmarked hrs le hmark (wholeUnits_length _)] at hdec
    -- the read alone, then the reads after it from the half unit it leaves
    generalize hread : units le (wholeUnits (r.pendingByte.toList ++ buffer)) = read at *
    have hlast : (us ++ read).getLast? = read.getLast?.or us.getLast? := List.getLast?_append
    obtain ⟨text, r', hreads, hhalf, htext⟩ := ih
      (r.installed buffer (encodingOf le)
        { text        := replaceCrLf (fromUtf16Lossy read)
          pendingByte := halfUnit (r.pendingByte.toList ++ buffer) }) (us ++ read)
      ⟨rfl, by simp only [installed]; omega⟩ (by rw [hlast]; exact hrest)
    have hsplit := wholeUnits_read (r.pendingByte.toList ++ buffer) buffers.flatten
    have hread' : units le (wholeUnits (r.pendingByte.toList ++ (buffer :: buffers).flatten)) =
        read ++ units le (wholeUnits
          ((halfUnit (r.pendingByte.toList ++ buffer)).toList ++ buffers.flatten)) := by
      rw [List.flatten_cons, ← List.append_assoc, hsplit.1,
        units_append le _ _ (wholeUnits_length _), hread]
    refine ⟨replaceCrLf (fromUtf16Lossy read) ++ text, r', ?_, ?_, ?_⟩
    · rw [decodeReads, henc, hdec]
      simp only [bind, Except.bind, hreads, pure, Except.pure]
    · rw [List.flatten_cons, ← List.append_assoc, hsplit.2]
      exact hhalf
    · rw [hread', ← List.append_assoc]
      refine htext.trans ?_
      rw [text_append us read hjoin, List.append_assoc]

/-- Reads of a marked file that cut no surrogate pair and no CR LF, and none of
which begins like a mark, give the text of the whole. -/
theorem decode_utf16_reads {rs : EncodingRs} (hrs : rs.Utf16Exact) (le : Bool) (r : TailReader I)
    (hr : r.byteOffset = 0 ∧ r.pendingByte = none) (first : List UInt8)
    (buffers : List (List UInt8)) (hmark : (markOf le).isPrefixOf first = true)
    (hplain : buffers ≠ [] → looksMarked ((wholeUnits (first ++ buffers.flatten)).drop 2) = false)
    (hcuts : CutsJoin le (units le ((wholeUnits first).drop 2)).getLast? (halfUnit first) buffers) :
    ∃ r', r.decodeReads rs (first :: buffers) =
        .ok (decodeBytes rs (wholeUnits (first ++ buffers.flatten)) (encodingOf le), r') ∧
      r'.pendingByte = halfUnit (first ++ buffers.flatten) := by
  have henc : r.readEncoding first = encodingOf le := by
    rw [readEncoding, if_pos hr.1, detectEncoding_mark hmark]
  have hdec := r.decodeTailBytes_utf16 rs first le
  rw [hr.2, Option.toList_none, List.nil_append] at hdec
  by_cases hone : buffers = []
  · subst hone
    rw [List.flatten_nil, List.append_nil, decodeReads, henc, hdec]
    exact ⟨_, by simp only [bind, Except.bind, decodeReads, pure, Except.pure, List.append_nil]; rfl,
      rfl⟩
  replace hplain := hplain hone
  have hlen : 2 ≤ first.length := by
    have hp := (List.isPrefixOf_iff_prefix.mp hmark).length_le
    cases le <;> exact hp
  have hwhole : 2 ≤ (wholeUnits first).length := by
    rw [wholeUnits, List.length_take]
    omega
  have hfirst : (markOf le).isPrefixOf (wholeUnits first) = true := by
    rw [List.isPrefixOf_iff_prefix] at hmark ⊢
    refine List.prefix_of_prefix_length_le hmark (List.take_prefix _ _) ?_
    cases le <;> exact hwhole
  obtain ⟨hsplit, hhalf⟩ := wholeUnits_read first buffers.flatten
  have hdrop : (wholeUnits (first ++ buffers.flatten)).drop 2 =
      (wholeUnits first).drop 2 ++ wholeUnits ((halfUnit first).toList ++ buffers.flatten) := by
    rw [hsplit, List.drop_append_of_le_length hwhole]
  rw [hdrop] at hplain
  have hmark' : (markOf le).isPrefixOf (wholeUnits (first ++ buffers.flatten)) = true := by
    rw [hsplit, List.isPrefixOf_iff_prefix]
    exact (List.isPrefixOf_iff_prefix.mp hfirst).trans (List.prefix_append _ _)
  rw [decodeBytes_marked hrs le hfirst (wholeUnits_length _) (looksMarked_append hplain)] at hdec
  have heven : ((wholeUnits first).drop 2).length % 2 = 0 := by
    have := wholeUnits_length first
    rw [List.length_drop]
    omega
  obtain ⟨text, r', hreads, hpending, htext⟩ := decodeReads_join hrs le buffers
    (r.installed first (encodingOf le)
      { text        := replaceCrLf (fromUtf16Lossy (units le ((wholeUnits first).drop 2)))
        pendingByte := halfUnit first })
    (units le ((wholeUnits first).drop 2)) ⟨rfl, by simp only [installed]; omega⟩ hcuts
  refine ⟨r', ?_, by rw [hhalf]; exact hpending⟩
  rw [decodeReads, henc, hdec, decodeBytes_marked hrs le hmark' (wholeUnits_length _)
    (by rwa [hdrop]), hdrop, units_append le _ _ heven]
  simp only [bind, Except.bind, hreads, pure, Except.pure]
  rw [← htext]
  rfl

def unsniffed : EncodingRs :=
  { decodeUtf16       := fun le bytes => fromUtf16Lossy (units le bytes)
    decodeWindows1252 := fun bytes => bytes.map windows1252Char }

def atStart : TailReader Nat :=
  { byteOffset := 0, parserSelection := .companyPortal, nextId := 0, nextLine := 1 }

/-- A pair and a CR LF inside reads, and half a unit between them. -/
theorem decode_utf16_reads_whole :
    ∃ r', atStart.decodeReads unsniffed [[0xFF, 0xFE, 0x3D, 0xD8, 0x00, 0xDE, 0x0D],
        [0x00, 0x0A, 0x00]] =
      .ok (decodeBytes unsniffed (wholeUnits ([0xFF, 0xFE, 0x3D, 0xD8, 0x00, 0xDE, 0x0D] ++
        [[0x00, 0x0A, 0x00]].flatten)) .utf16Le, r') ∧
      r'.pendingByte = halfUnit ([0xFF, 0xFE, 0x3D, 0xD8, 0x00, 0xDE, 0x0D] ++
        [[0x00, 0x0A, 0x00]].flatten) :=
  decode_utf16_reads (fun _ _ _ _ => rfl) true atStart ⟨rfl, rfl⟩ _ _ (by decide) (fun _ => by decide)
    ⟨by decide, by decide, trivial⟩

/-- A surrogate pair cut by two reads is replaced twice. -/
theorem decode_utf16_cut_pair :
    ((atStart.decodeReads unsniffed [[0xFF, 0xFE, 0x3D, 0xD8], [0x00, 0xDE]]).map Prod.fst).toOption ≠
      some (decodeBytes unsniffed (wholeUnits [0xFF, 0xFE, 0x3D, 0xD8, 0x00, 0xDE]) .utf16Le) := by
  decide +kernel

end TailReader

end Watcher
end CmTrace
