import CmTrace.Watcher.Reset

/-!
# UTF-8 read by read

The scalar that is not all there is carried from read to read and the mark of
the file is removed once, so the reads of a growing file give the text of the
whole; a read that brings an invalid byte fails and changes no position.
-/

namespace CmTrace
namespace Watcher

open Text Log Codec

/-! ## Decoding what was carried -/

theorem decode_mark (bytes : List UInt8) :
    Codec.utf8.decode (utf8Mark ++ bytes) =
      (Codec.utf8.decode bytes).map fun r => (('\uFEFF', 3) :: r.1, r.2) := by
  have hhead : Codec.utf8.head (utf8Mark ++ bytes) = .done '\uFEFF' 3 :=
    Codec.utf8.done_append bytes (by decide)
  rw [Codec.utf8.decode_done hhead]
  rfl

theorem decode_stripMark_isNone (bytes : List UInt8) :
    Codec.utf8.decode (stripMark utf8Mark bytes) = none ↔ Codec.utf8.decode bytes = none := by
  rw [stripMark]
  split_ifs with hmark
  · obtain ⟨rest, rfl⟩ := List.isPrefixOf_iff_prefix.mp hmark
    rw [List.drop_left, decode_mark, Option.map_eq_none_iff]
  · exact Iff.rfl

theorem decode_of_prefix_mark {bytes : List UInt8} (h : bytes <+: utf8Mark)
    (hne : ¬ utf8Mark <+: bytes) : Codec.utf8.decode bytes = some ([], bytes) := by
  have hlength : bytes.length ≤ 3 := h.length_le
  rw [List.prefix_iff_eq_take.mp h] at hne ⊢
  have hcases : bytes.length = 0 ∨ bytes.length = 1 ∨ bytes.length = 2 ∨ bytes.length = 3 := by
    omega
  rcases hcases with hn | hn | hn | hn
  · rw [hn]; rfl
  · rw [hn]; rfl
  · rw [hn]; rfl
  · rw [hn] at hne
    exact absurd (List.prefix_refl _) hne

/-- What a read decodes when the bytes before it left a carry: the offset tells
whether the mark of the file is still to come. -/
theorem decode_carried {good carry : List UInt8} {items : List (Char × Nat)}
    (h : Codec.utf8.decode (stripMark utf8Mark good) = some (items, carry)) (buffer : List UInt8) :
    (Codec.utf8.decode (stripMark utf8Mark (good ++ buffer))) =
      (Codec.utf8.decode (if good.length - carry.length = 0 then
        stripMark utf8Mark (carry ++ buffer) else carry ++ buffer)).map
          fun r => (items ++ r.1, r.2) := by
  have hwidths := Codec.utf8.decode_widths _ h
  by_cases hmark : utf8Mark <+: good
  · have hgood : stripMark utf8Mark good = good.drop 3 := by
      rw [stripMark, if_pos (List.isPrefixOf_iff_prefix.mpr hmark)]
      rfl
    have hlong : 3 ≤ good.length := hmark.length_le
    have hall : stripMark utf8Mark (good ++ buffer) = good.drop 3 ++ buffer := by
      rw [stripMark, if_pos (List.isPrefixOf_iff_prefix.mpr (hmark.trans (List.prefix_append ..)))]
      exact List.drop_append_of_le_length hlong
    rw [hgood, List.length_drop] at hwidths
    rw [hgood] at h
    rw [hall, Codec.utf8.decode_append, h, if_neg (by omega)]
    rfl
  · have hgood : stripMark utf8Mark good = good := by
      rw [stripMark, if_neg (by rwa [List.isPrefixOf_iff_prefix])]
    rw [hgood] at h hwidths
    cases items with
    | nil =>
      have hcarry : carry = good := Codec.utf8.decode_unread h
      subst hcarry
      rw [if_pos (Nat.sub_self _)]
      simp
    | cons item items =>
      have hitem : 0 < item.2 := Codec.utf8.decode_forall (P := fun _ n => 0 < n)
        (fun hhead => (Codec.utf8.width_bound hhead).1) good h item (List.mem_cons_self ..)
      rw [List.map_cons, List.sum_cons] at hwidths
      rw [if_neg (by omega)]
      have hall : stripMark utf8Mark (good ++ buffer) = good ++ buffer := by
        rw [stripMark, if_neg]
        rw [List.isPrefixOf_iff_prefix]
        intro hpre
        rcases List.prefix_or_prefix_of_prefix hpre (List.prefix_append good buffer) with hp | hp
        · exact hmark hp
        · rw [decode_of_prefix_mark hp hmark] at h
          cases h
      rw [hall, Codec.utf8.decode_append, h]
      rfl

namespace TailReader

variable {I : Type}

/-! ## A file that only grows -/

section Commit

variable (P : Parsers)

theorem commitRead_keeps (r : TailReader I) (now : Nat) (file : Opened I) (readOffset : Nat)
    (encoding : FileEncoding) (decoded : DecodedTailBytes) (ho : Owned r) :
    Owned (r.commitRead P now file readOffset encoding decoded).2 ∧
      (r.commitRead P now file readOffset encoding decoded).2.parserSelection = r.parserSelection ∧
      (r.commitRead P now file readOffset encoding decoded).2.encoding = encoding ∧
      (r.commitRead P now file readOffset encoding decoded).2.pendingUtf8Bytes =
        decoded.pendingUtf8Bytes ∧
      (r.commitRead P now file readOffset encoding decoded).2.pendingUtf8Selection =
        decoded.pendingUtf8Selection := by
  have h := (consumeText_frames P
    { r with
      fileIdentity         := file.identity
      pendingReset         := none
      byteOffset           := readOffset
      encoding             := encoding
      pendingByte          := decoded.pendingByte
      pendingUtf8Bytes     := decoded.pendingUtf8Bytes
      pendingUtf8Selection := decoded.pendingUtf8Selection } now decoded.text).keeps
  have howned := h.owned ⟨ho.record, ho.fragment, ho.initial⟩
  exact ⟨⟨howned.record, howned.fragment, howned.initial⟩, h.source.parserSelection,
    h.source.encoding, h.source.pendingUtf8Bytes, h.source.pendingUtf8Selection⟩

end Commit

variable [DecidableEq I]

/-- The reader has read `good` of a UTF-8 file that keeps its identity. -/
structure Follows (r : TailReader I) (identity : Option I) (good : List UInt8) : Prop where
  byteOffset : r.byteOffset = good.length
  pendingReset : r.pendingReset = none
  fileIdentity : identitiesDiffer r.fileIdentity identity = false
  encoding : good ≠ [] → r.encoding = .utf8
  carry : ∃ items, Codec.utf8.decode (stripMark utf8Mark good) = some (items, r.pendingUtf8Bytes)
  owned : Owned r
  utf8Selection : ∀ selection ∈ r.pendingUtf8Selection, selection = r.parserSelection

omit [DecidableEq I] in
theorem any_ne_eq_false {α : Type} {held : Option α} {f : α → ResolvedParser}
    {selection : ResolvedParser} (h : ∀ x ∈ held, f x = selection) :
    (held.any fun x => f x != selection) = false := by
  cases held with
  | none => rfl
  | some x => rw [Option.any_some, h x rfl, bne_self_eq_false]

omit [DecidableEq I] in
theorem Owned.pendingParserSelectionChanged {r : TailReader I} (ho : Owned r)
    (hu : ∀ selection ∈ r.pendingUtf8Selection, selection = r.parserSelection) :
    r.pendingParserSelectionChanged = false := by
  rw [TailReader.pendingParserSelectionChanged, any_ne_eq_false ho.record,
    any_ne_eq_false ho.fragment, any_ne_eq_false hu, Bool.false_or, Bool.false_or, Bool.false_or,
    Bool.and_eq_false_iff, Bool.not_eq_false']
  exact (Bool.eq_false_or_eq_true _).symm.imp id ho.initial

def grown (identity : Option I) (written : List UInt8) : Opened I :=
  { identity := identity, size := written.length, content := some written }

omit [DecidableEq I] in
theorem grown_readExact (identity : Option I) {good buffer : List UInt8} :
    (grown identity (good ++ buffer)).readExact good.length = some buffer := by
  simp [Opened.readExact, grown]

theorem Follows.observedReset {r : TailReader I} {identity : Option I} {good : List UInt8}
    (h : r.Follows identity good) (buffer : List UInt8) :
    r.observedReset (grown identity (good ++ buffer)) = none := by
  have hshort : ¬ (grown identity (good ++ buffer)).size < r.byteOffset := by
    show ¬ (good ++ buffer).length < r.byteOffset
    rw [h.byteOffset, List.length_append]
    omega
  have hsame : identitiesDiffer r.fileIdentity (grown identity (good ++ buffer)).identity = false :=
    h.fileIdentity
  rw [TailReader.observedReset, hsame, if_neg Bool.false_ne_true, if_neg (fun h => hshort h.1),
    h.pendingReset]

def Unmarked16 (bytes : List UInt8) : Prop :=
  utf16LeMark.isPrefixOf bytes = false ∧ utf16BeMark.isPrefixOf bytes = false

variable (P : Parsers) (rs : EncodingRs)

/-- The call hands the text to framing, after what the debounce has flushed. -/
def Hands (r : TailReader I) (now : Nat) (file : Opened I) (text : Text) : Prop :=
  ∃ (flushed : TailBatch) (s : TailReader I), Frames r (flushed, s) ∧
    ((text = [] ∧ r.readNewEntries P rs now (some file) =
        (.ok flushed, { s with fileIdentity := file.identity })) ∨
      ∃ (encoding : FileEncoding) (decoded : DecodedTailBytes), decoded.text = text ∧
        r.readNewEntries P rs now (some file) =
          (.ok (flushed.append (s.commitRead P now file r.byteOffset encoding decoded).1),
            (s.commitRead P now file r.byteOffset encoding decoded).2))

omit [DecidableEq I] in
theorem decodeTailBytes_utf8 {s : TailReader I} {good : List UInt8} (hoffset : s.byteOffset = good.length)
    {read : List (Char × Nat)}
    (hread : Codec.utf8.decode (stripMark utf8Mark good) = some (read, s.pendingUtf8Bytes))
    (hu : ∀ selection ∈ s.pendingUtf8Selection, selection = s.parserSelection)
    (buffer : List UInt8) :
    (Codec.utf8.decode (stripMark utf8Mark (good ++ buffer)) = none →
      s.decodeTailBytes rs buffer .utf8 false = .error .invalidUtf8) ∧
    ∀ items carry, Codec.utf8.decode (stripMark utf8Mark (good ++ buffer)) = some (items, carry) →
      ∃ decoded, s.decodeTailBytes rs buffer .utf8 false = .ok decoded ∧
        items.map Prod.fst = read.map Prod.fst ++ decoded.text ∧
        decoded.pendingUtf8Bytes = carry ∧
        ∀ selection ∈ decoded.pendingUtf8Selection, selection = s.parserSelection := by
  have hdecode := decode_carried hread buffer
  rw [← hoffset] at hdecode
  rw [decodeTailBytes, if_neg (fun h => h rfl)]
  simp only [Bool.false_eq_true, if_false]
  generalize (if s.byteOffset - s.pendingUtf8Bytes.length = 0 then
    stripMark utf8Mark (s.pendingUtf8Bytes ++ buffer) else s.pendingUtf8Bytes ++ buffer) =
      decodeBuffer at hdecode ⊢
  rw [hdecode]
  cases hnew : Codec.utf8.decode decodeBuffer with
  | none => exact ⟨fun _ => rfl, fun _ _ h => by cases h⟩
  | some new =>
    obtain ⟨newItems, newCarry⟩ := new
    refine ⟨fun h => (by cases h), fun items carry h => ?_⟩
    cases h
    cases newCarry with
    | nil => exact ⟨_, rfl, by simp, rfl, fun _ h => by cases h⟩
    | cons b newCarry =>
      refine ⟨_, rfl, by simp, rfl, fun selection hselection => ?_⟩
      cases hprevious : s.pendingUtf8Selection with
      | none =>
        rw [hprevious] at hselection
        exact (Option.some.inj hselection).symm
      | some previous =>
        rw [hprevious] at hselection
        rw [← Option.some.inj hselection]
        exact hu previous hprevious

theorem Follows.encodingRead {r : TailReader I} {identity : Option I} {good buffer : List UInt8}
    (h : r.Follows identity good) (hmark : Unmarked16 (good ++ buffer)) :
    (if r.byteOffset = 0 then detectEncoding buffer else r.encoding) = .utf8 := by
  rw [h.byteOffset]
  split_ifs with hzero
  · rw [List.length_eq_zero_iff] at hzero
    rw [hzero, List.nil_append] at hmark
    rw [detectEncoding, hmark.1, hmark.2]
    rfl
  · exact h.encoding fun hnil => hzero (by rw [hnil]; rfl)

theorem Follows.readNewEntries {r : TailReader I} {identity : Option I} {good : List UInt8}
    (h : r.Follows identity good) (now : Nat) (buffer : List UInt8)
    (hmark : Unmarked16 (good ++ buffer)) :
    r.readNewEntries P rs now (some (grown identity (good ++ buffer))) =
      if buffer = [] then
        (.ok (r.debounced P now).1, { (r.debounced P now).2 with fileIdentity := identity })
      else match (r.debounced P now).2.decodeTailBytes rs buffer .utf8 false with
        | .error error => (.error error, (r.debounced P now).2)
        | .ok decoded =>
          let committed := (r.debounced P now).2.commitRead P now
            (grown identity (good ++ buffer)) r.byteOffset .utf8 decoded
          (.ok ((r.debounced P now).1.append committed.1), committed.2) := by
  have hencoding := h.encodingRead hmark
  have hsource := (debounced_frames P r now).keeps.source
  have hsize : (grown identity (good ++ buffer)).size = r.byteOffset ↔ buffer = [] := by
    show (good ++ buffer).length = r.byteOffset ↔ buffer = []
    rw [h.byteOffset, List.length_append, ← List.length_eq_zero_iff]
    omega
  rw [readNewEntries_continues P rs r now _ (h.observedReset buffer),
    h.owned.pendingParserSelectionChanged h.utf8Selection, if_neg Bool.false_ne_true]
  dsimp only
  by_cases hb : buffer = []
  · rw [if_pos (hsize.mpr hb), if_pos hb]
    rfl
  · have hexact : (grown identity (good ++ buffer)).readExact r.byteOffset = some buffer := by
      rw [h.byteOffset]
      exact grown_readExact identity
    rw [if_neg (fun hs => hb (hsize.mp hs)), if_neg hb, hsource.encoding, hexact]
    dsimp only
    rw [hencoding]
    all_goals rfl

theorem Follows.step_invalid {r : TailReader I} {identity : Option I} {good : List UInt8}
    (h : r.Follows identity good) (now : Nat) (buffer : List UInt8)
    (hmark : Unmarked16 (good ++ buffer)) (hinvalid : Codec.utf8.decode (good ++ buffer) = none) :
    (r.readNewEntries P rs now (some (grown identity (good ++ buffer)))).1 = .error .invalidUtf8 ∧
      SameSource r (r.readNewEntries P rs now (some (grown identity (good ++ buffer)))).2 ∧
      Follows (r.readNewEntries P rs now (some (grown identity (good ++ buffer)))).2 identity
        good := by
  obtain ⟨read, hread⟩ := h.carry
  have hframes := debounced_frames P r now
  have hsource := hframes.keeps.source
  have hb : buffer ≠ [] := by
    rintro rfl
    rw [List.append_nil, ← decode_stripMark_isNone, hread] at hinvalid
    cases hinvalid
  have hdecoded := (decodeTailBytes_utf8 (s := (r.debounced P now).2) rs
    (hsource.byteOffset.trans h.byteOffset) (by rw [hsource.pendingUtf8Bytes]; exact hread)
    (by rw [hsource.pendingUtf8Selection, hsource.parserSelection]; exact h.utf8Selection)
    buffer).1 ((decode_stripMark_isNone _).mpr hinvalid)
  rw [h.readNewEntries P rs now buffer hmark, if_neg hb, hdecoded]
  refine ⟨rfl, hsource, ?_⟩
  exact
    { byteOffset    := hsource.byteOffset.trans h.byteOffset
      pendingReset  := hsource.pendingReset.trans h.pendingReset
      fileIdentity  := by rw [hsource.fileIdentity]; exact h.fileIdentity
      encoding      := fun hne => hsource.encoding.trans (h.encoding hne)
      carry         := ⟨read, by rw [hsource.pendingUtf8Bytes]; exact hread⟩
      owned         := hframes.keeps.owned h.owned
      utf8Selection := by
        rw [hsource.pendingUtf8Selection, hsource.parserSelection]
        exact h.utf8Selection }

theorem identitiesDiffer_self (identity : Option I) : identitiesDiffer identity identity = false := by
  cases identity with
  | none => rfl
  | some x => simp [identitiesDiffer]

theorem Follows.step_valid {r : TailReader I} {identity : Option I} {good : List UInt8}
    (h : r.Follows identity good) (now : Nat) (buffer : List UInt8)
    (hmark : Unmarked16 (good ++ buffer)) {read items : List (Char × Nat)} {carry : List UInt8}
    (hread : Codec.utf8.decode (stripMark utf8Mark good) = some (read, r.pendingUtf8Bytes))
    (hitems : Codec.utf8.decode (stripMark utf8Mark (good ++ buffer)) = some (items, carry)) :
    ∃ text : Text, items.map Prod.fst = read.map Prod.fst ++ text ∧
      Hands P rs r now (grown identity (good ++ buffer)) text ∧
      (∃ batch, (r.readNewEntries P rs now (some (grown identity (good ++ buffer)))).1 =
        .ok batch) ∧
      Follows (r.readNewEntries P rs now (some (grown identity (good ++ buffer)))).2 identity
        (good ++ buffer) ∧
      (r.readNewEntries P rs now (some (grown identity (good ++ buffer)))).2.pendingUtf8Bytes =
        carry := by
  have hframes := debounced_frames P r now
  have hsource := hframes.keeps.source
  have howned := hframes.keeps.owned h.owned
  by_cases hb : buffer = []
  · subst hb
    rw [List.append_nil] at hitems hmark
    rw [hread] at hitems
    cases hitems
    have hcall := h.readNewEntries P rs now [] (by rwa [List.append_nil])
    rw [if_pos rfl] at hcall
    refine ⟨[], by simp, ⟨_, _, hframes, .inl ⟨rfl, hcall⟩⟩, ⟨_, by rw [hcall]⟩, ?_, ?_⟩
    · rw [hcall]
      exact
        { byteOffset    := by rw [List.append_nil]; exact hsource.byteOffset.trans h.byteOffset
          pendingReset  := hsource.pendingReset.trans h.pendingReset
          fileIdentity  := identitiesDiffer_self identity
          encoding      := fun hne => hsource.encoding.trans
            (h.encoding (by rwa [List.append_nil] at hne))
          carry         := ⟨read, by
            rw [List.append_nil]
            show _ = some (read, (r.debounced P now).2.pendingUtf8Bytes)
            rw [hsource.pendingUtf8Bytes]
            exact hread⟩
          owned         := ⟨howned.record, howned.fragment, howned.initial⟩
          utf8Selection := by
            show ∀ selection ∈ (r.debounced P now).2.pendingUtf8Selection,
              selection = (r.debounced P now).2.parserSelection
            rw [hsource.pendingUtf8Selection, hsource.parserSelection]
            exact h.utf8Selection }
    · rw [hcall]
      exact hsource.pendingUtf8Bytes
  · obtain ⟨decoded, hdecoded, htext, hcarry, hselection⟩ :=
      (decodeTailBytes_utf8 (s := (r.debounced P now).2) rs
        (hsource.byteOffset.trans h.byteOffset) (by rw [hsource.pendingUtf8Bytes]; exact hread)
        (by rw [hsource.pendingUtf8Selection, hsource.parserSelection]; exact h.utf8Selection)
        buffer).2 items carry hitems
    have hcall := h.readNewEntries P rs now buffer hmark
    rw [if_neg hb, hdecoded] at hcall
    have hspec := commitRead_spec P (r.debounced P now).2 now (grown identity (good ++ buffer))
      r.byteOffset .utf8 decoded
    have hkeeps := commitRead_keeps P (r.debounced P now).2 now (grown identity (good ++ buffer))
      r.byteOffset .utf8 decoded howned
    refine ⟨decoded.text, htext, ⟨_, _, hframes, .inr ⟨.utf8, decoded, rfl, hcall⟩⟩,
      ⟨_, by rw [hcall]⟩, ?_, ?_⟩
    · rw [hcall]
      exact
        { byteOffset    := hspec.2.2.2
          pendingReset  := hspec.2.1
          fileIdentity  := by rw [hspec.2.2.1]; exact identitiesDiffer_self identity
          encoding      := fun _ => hkeeps.2.2.1
          carry         := ⟨items, by rw [hkeeps.2.2.2.1, hcarry]; exact hitems⟩
          owned         := hkeeps.1
          utf8Selection := by
            rw [hkeeps.2.2.2.2, hkeeps.2.1]
            exact hselection }
    · rw [hcall]
      exact hkeeps.2.2.2.1.trans hcarry

/-! ## Runs -/

def growth (identity : Option I) : List UInt8 → List (Nat × List UInt8) → List (Call I)
  | _, [] => []
  | written, (now, chunk) :: reads =>
    { now := now, attempt := some (grown identity (written ++ chunk)) } ::
      growth identity (written ++ chunk) reads

def HandsAll : TailReader I → List (Call I) → List Text → Prop
  | _, [], texts => texts = []
  | r, call :: calls, texts => ∃ file text rest, call.attempt = some file ∧ texts = text :: rest ∧
      Hands P rs r call.now file text ∧
      HandsAll (r.readNewEntries P rs call.now call.attempt).2 calls rest

def written (reads : List (Nat × List UInt8)) : List UInt8 := (reads.map Prod.snd).flatten

theorem Unmarked16.prefix {bytes more : List UInt8} (h : Unmarked16 (bytes ++ more)) :
    Unmarked16 bytes := by
  have hpart : ∀ mark : List UInt8, mark.isPrefixOf (bytes ++ more) = false →
      mark.isPrefixOf bytes = false := by
    intro mark hmark
    rw [← Bool.not_eq_true, List.isPrefixOf_iff_prefix] at hmark ⊢
    exact fun hp => hmark (hp.trans (List.prefix_append ..))
  exact ⟨hpart _ h.1, hpart _ h.2⟩

theorem unmarked16_of_decode {bytes : List UInt8} (h : Codec.utf8.decode bytes ≠ none) :
    Unmarked16 bytes := by
  have hpart : ∀ mark : List UInt8, Codec.utf8.decode mark = none →
      mark.isPrefixOf bytes = false := by
    intro mark hmark
    rw [← Bool.not_eq_true, List.isPrefixOf_iff_prefix]
    rintro ⟨rest, rfl⟩
    exact h (by rw [Codec.utf8.decode_append, hmark]; rfl)
  exact ⟨hpart _ (by decide), hpart _ (by decide)⟩

theorem decode_prefix_ne_none {bytes more : List UInt8}
    (h : Codec.utf8.decode (bytes ++ more) ≠ none) : Codec.utf8.decode bytes ≠ none := by
  intro hnone
  exact h (by rw [Codec.utf8.decode_append, hnone]; rfl)

theorem readCalls_valid {r : TailReader I} {identity : Option I} {good : List UInt8}
    (h : r.Follows identity good) (reads : List (Nat × List UInt8))
    {read items : List (Char × Nat)} {carry : List UInt8}
    (hread : Codec.utf8.decode (stripMark utf8Mark good) = some (read, r.pendingUtf8Bytes))
    (hitems : Codec.utf8.decode (stripMark utf8Mark (good ++ written reads)) =
      some (items, carry)) :
    (∀ outcome ∈ (r.readCalls P rs (growth identity good reads)).1, ∃ batch, outcome = .ok batch) ∧
      (∃ texts, HandsAll P rs r (growth identity good reads) texts ∧
        items.map Prod.fst = read.map Prod.fst ++ texts.flatten) ∧
      (r.readCalls P rs (growth identity good reads)).2.pendingUtf8Bytes = carry ∧
      Follows (r.readCalls P rs (growth identity good reads)).2 identity
        (good ++ written reads) := by
  induction reads generalizing r good read with
  | nil =>
    rw [written, List.map_nil, List.flatten_nil, List.append_nil] at hitems ⊢
    rw [hread] at hitems
    cases hitems
    exact ⟨fun _ ho => (by cases ho), ⟨[], rfl, by simp⟩, rfl, h⟩
  | cons first reads ih =>
    obtain ⟨now, chunk⟩ := first
    have hsplit : good ++ written ((now, chunk) :: reads) = (good ++ chunk) ++ written reads := by
      simp [written]
    rw [hsplit] at hitems ⊢
    have hvalid : Codec.utf8.decode ((good ++ chunk) ++ written reads) ≠ none := by
      rw [Ne, ← decode_stripMark_isNone, hitems]
      exact Option.some_ne_none _
    have hfirst := decode_prefix_ne_none hvalid
    cases hnow : Codec.utf8.decode (stripMark utf8Mark (good ++ chunk)) with
    | none => exact absurd ((decode_stripMark_isNone _).mp hnow) hfirst
    | some next =>
      obtain ⟨text, htext, hhands, hok, hfollows, hcarry⟩ :=
        h.step_valid P rs now chunk (unmarked16_of_decode hfirst) hread hnow
      obtain ⟨hoks, ⟨texts, hall, htexts⟩, hlast⟩ := ih hfollows (by rw [hcarry]; exact hnow) hitems
      refine ⟨fun outcome ho => ?_, ⟨text :: texts, ?_, ?_⟩, hlast⟩
      · rcases List.mem_cons.mp ho with rfl | ho
        · exact hok
        · exact hoks outcome ho
      · exact ⟨_, text, texts, rfl, rfl, hhands, hall⟩
      · rw [htexts, htext, List.flatten_cons, List.append_assoc]

theorem readCalls_follows {r : TailReader I} {identity : Option I} {good bytes : List UInt8}
    (hgood : good <+: bytes) (h : r.Follows identity good) (reads : List (Nat × List UInt8))
    (hmark : Unmarked16 (bytes ++ written reads)) :
    ∃ good, good <+: bytes ++ written reads ∧
      Follows (r.readCalls P rs (growth identity bytes reads)).2 identity good := by
  induction reads generalizing r good bytes with
  | nil =>
    rw [written, List.map_nil, List.flatten_nil, List.append_nil]
    exact ⟨good, hgood, h⟩
  | cons first reads ih =>
    obtain ⟨now, chunk⟩ := first
    have hsplit : bytes ++ written ((now, chunk) :: reads) = (bytes ++ chunk) ++ written reads := by
      simp [written]
    rw [hsplit] at hmark ⊢
    obtain ⟨buffer, hbuffer⟩ := hgood.trans (List.prefix_append bytes chunk)
    have hnow := hmark.prefix
    rw [← hbuffer] at hnow
    cases hdecode : Codec.utf8.decode (stripMark utf8Mark (good ++ buffer)) with
    | none =>
      have hstep := (h.step_invalid P rs now buffer hnow
        ((decode_stripMark_isNone _).mp hdecode)).2.2
      rw [hbuffer] at hstep
      exact ih (hgood.trans (List.prefix_append bytes chunk)) hstep hmark
    | some next =>
      obtain ⟨read, hread⟩ := h.carry
      obtain ⟨-, -, -, -, hstep, -⟩ := h.step_valid P rs now buffer hnow hread hdecode
      rw [hbuffer] at hstep
      exact ih (List.prefix_refl _) hstep hmark

/-- The reads of a growing UTF-8 file.  Of valid bytes no read fails and the
texts are the sequence without its mark, but for the scalar that is not all
there; a read that has come to an invalid byte fails and leaves the reader in
its place, when the file does not begin like UTF-16. -/
theorem readCalls_utf8 {r : TailReader I} {identity : Option I} (h : r.Follows identity [])
    (reads : List (Nat × List UInt8)) :
    (∀ items carry, Codec.utf8.decode (stripMark utf8Mark (written reads)) = some (items, carry) →
      (∀ outcome ∈ (r.readCalls P rs (growth identity [] reads)).1,
        ∃ batch, outcome = .ok batch) ∧
      (∃ texts, HandsAll P rs r (growth identity [] reads) texts ∧
        texts.flatten = items.map Prod.fst) ∧
      (r.readCalls P rs (growth identity [] reads)).2.pendingUtf8Bytes = carry ∧
      carry.length ≤ 3 ∧
      (r.readCalls P rs (growth identity [] reads)).2.byteOffset = (written reads).length) ∧
    ∀ front now chunk back, reads = front ++ (now, chunk) :: back →
      Unmarked16 (written reads) → Codec.utf8.decode (written front ++ chunk) = none →
      let s := (r.readCalls P rs (growth identity [] front)).2
      let result := s.readNewEntries P rs now (some (grown identity (written front ++ chunk)))
      result.1 = .error .invalidUtf8 ∧ SameSource s result.2 ∧ s.pendingUtf8Bytes.length ≤ 3 := by
  obtain ⟨read, hread⟩ := h.carry
  have hnone : some ([], []) = some (read, r.pendingUtf8Bytes) := hread
  obtain rfl : [] = read := (Prod.mk.inj (Option.some.inj hnone)).1
  refine ⟨fun items carry hitems => ?_, fun front now chunk back hreads hmark hinvalid => ?_⟩
  · obtain ⟨hok, ⟨texts, hall, htexts⟩, hcarry, hfollows⟩ :=
      readCalls_valid P rs h reads hread hitems
    exact ⟨hok, ⟨texts, hall, by simpa using htexts.symm⟩, hcarry,
      Codec.utf8.decode_carry_length hitems, hfollows.byteOffset⟩
  · have hwhole : written reads = (written front ++ chunk) ++ written back := by
      rw [hreads]
      simp [written]
    rw [hwhole] at hmark
    have hnow := hmark.prefix
    obtain ⟨good, hgood, hfollows⟩ := readCalls_follows P rs (List.prefix_refl []) h front hnow.prefix
    obtain ⟨buffer, hbuffer⟩ := hgood.trans (List.prefix_append _ chunk)
    rw [List.nil_append] at hbuffer
    rw [← hbuffer] at hnow hinvalid
    obtain ⟨herror, hsource, -⟩ := hfollows.step_invalid P rs now buffer hnow hinvalid
    obtain ⟨_, hcarry⟩ := hfollows.carry
    rw [hbuffer] at herror hsource
    exact ⟨herror, hsource, Codec.utf8.decode_carry_length hcarry⟩

theorem plainStart_follows : plainStart.Follows (some 1) [] :=
  { byteOffset    := rfl
    pendingReset  := rfl
    fileIdentity  := rfl
    encoding      := fun h => absurd rfl h
    carry         := ⟨[], rfl⟩
    owned         := ⟨fun _ h => (by cases h), fun _ h => (by cases h), fun h => (by cases h)⟩
    utf8Selection := fun _ h => (by cases h) }

/-- A mark in three reads and a scalar in two. -/
theorem readCalls_utf8_split :
    ∃ texts, HandsAll plainParsers unsniffed plainStart (growth (some 1) []
        [(0, [0xEF]), (1, [0xBB]), (2, [0xBF, 0xC3]), (3, [0xA9])]) texts ∧
      texts.flatten = ['é'] :=
  ((readCalls_utf8 plainParsers unsniffed plainStart_follows
    [(0, [0xEF]), (1, [0xBB]), (2, [0xBF, 0xC3]), (3, [0xA9])]).1 [('é', 2)] [] (by decide)).2.1

/-- Bytes that are not UTF-8 but begin like UTF-16 do not fail. -/
theorem readCalls_utf8_marked :
    Codec.utf8.decode [0xFF, 0xFE, 0x41, 0x00] = none ∧
      ∃ batch, (plainStart.readNewEntries plainParsers unsniffed 0
        (some (grown (some 1) [0xFF, 0xFE, 0x41, 0x00]))).1 = .ok batch :=
  ⟨by decide, _, rfl⟩

end TailReader
end Watcher
end CmTrace
