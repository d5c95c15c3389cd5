import CmTrace.Parser.ImePrefix

/-!
# Spans of the entries of a management extension log

Every entry stands for a stretch of its content: a record for what the record
expression matches, a fragment for its own text.  The stretches follow one another, and
what is between them is line ends.
-/

namespace CmTrace
namespace Parser
namespace Ime

open Text Log Time Ccm
open Regex (Match many word anyBut chain)

/-! ## Attributes of a record -/

def attrsRe : Regex :=
  many (.alt (.char fun c => c != '"' && c != '>')
    (chain [word ['"'], many (anyBut '"'), word ['"']]))

def closingRe : Regex := chain [word attrsStart, .group 2 attrsRe, word ['>']]

theorem imeRecordRe_eq : imeRecordRe = .opened recordStart 1 closingRe := rfl

theorem attributesEnd_eq {quoted : Bool} {s values : Text}
    (h : attributesEnd quoted s = some values) : ∃ more, s = values ++ '>' :: more := by
  induction s generalizing quoted values with
  | nil => cases h
  | cons c s ih =>
    rw [attributesEnd] at h
    split_ifs at h with hquote hclose
    · obtain ⟨later, hlater, rfl⟩ := Option.map_eq_some_iff.mp h
      obtain ⟨more, rfl⟩ := ih hlater
      exact ⟨more, rfl⟩
    · obtain rfl := Option.some.inj h
      exact ⟨s, by rw [hclose.1]; rfl⟩
    · obtain ⟨later, hlater, rfl⟩ := Option.map_eq_some_iff.mp h
      obtain ⟨more, rfl⟩ := ih hlater
      exact ⟨more, rfl⟩

theorem attributesEnd_append {quoted : Bool} {s values : Text}
    (h : attributesEnd quoted s = some values) (more : Text) :
    attributesEnd quoted (values ++ '>' :: more) = some values := by
  induction s generalizing quoted values with
  | nil => cases h
  | cons c s ih =>
    rw [attributesEnd] at h
    split_ifs at h with hquote hclose
    · obtain ⟨later, hlater, rfl⟩ := Option.map_eq_some_iff.mp h
      rw [List.cons_append, attributesEnd, if_pos hquote, ih hlater]
      rfl
    · obtain rfl := Option.some.inj h
      rw [List.nil_append, attributesEnd, if_neg (by decide), if_pos ⟨rfl, hclose.2⟩]
    · obtain ⟨later, hlater, rfl⟩ := Option.map_eq_some_iff.mp h
      rw [List.cons_append, attributesEnd, if_neg hquote, if_neg hclose, ih hlater]
      rfl

def Closed (values : Text) : Prop :=
  ∀ more, attributesEnd false (values ++ '>' :: more) = some values

theorem attributesEnd_quoted {inner : Text} (h : '"' ∉ inner) (s : Text) :
    attributesEnd true (inner ++ '"' :: s) = (attributesEnd false s).map (inner ++ '"' :: ·) := by
  induction inner with
  | nil =>
    rw [List.nil_append, attributesEnd, if_pos rfl]
    rfl
  | cons c inner ih =>
    have hc : c ≠ '"' := fun hc => h (hc ▸ List.mem_cons_self)
    rw [List.cons_append, attributesEnd, if_neg hc, if_neg (by simp),
      ih fun hmem => h (List.mem_cons_of_mem c hmem), Option.map_map]
    rfl

theorem exists_quoted {s values : Text} (h : attributesEnd true s = some values) :
    ∃ inner later rest, '"' ∉ inner ∧ s = inner ++ '"' :: rest ∧
      attributesEnd false rest = some later ∧ values = inner ++ '"' :: later := by
  induction s generalizing values with
  | nil => cases h
  | cons c s ih =>
    rw [attributesEnd] at h
    split_ifs at h with hquote hclose
    · obtain ⟨later, hlater, rfl⟩ := Option.map_eq_some_iff.mp h
      exact ⟨[], later, s, List.not_mem_nil, by rw [hquote]; rfl, hlater, by rw [hquote]; rfl⟩
    · cases hclose.2
    · obtain ⟨values, hvalues, rfl⟩ := Option.map_eq_some_iff.mp h
      obtain ⟨inner, later, rest, hinner, rfl, hlater, rfl⟩ := ih hvalues
      refine ⟨c :: inner, later, rest, ?_, rfl, hlater, rfl⟩
      intro hmem
      rcases List.mem_cons.mp hmem with hc | hmem
      · exact hquote hc.symm
      · exact hinner hmem

theorem taken_word {w s : Text} {m : Match} (hm : m ∈ (word w).prefixes false s) : m.taken = w := by
  rw [Regex.word_prefixes] at hm
  split_ifs at hm
  · rw [List.mem_singleton.mp hm]
  · cases hm

def quotedRe : Regex := chain [word ['"'], many (anyBut '"'), word ['"']]

theorem taken_quotedRe (s : Text) : ∀ m ∈ quotedRe.prefixes false s,
    ∃ inner, '"' ∉ inner ∧ m.taken = '"' :: (inner ++ ['"']) := by
  intro m hm
  obtain ⟨first, hfirst, hm⟩ := List.mem_flatMap.mp hm
  obtain ⟨rest, hrest, rfl⟩ := List.mem_map.mp hm
  obtain ⟨second, hsecond, hrest⟩ := List.mem_flatMap.mp hrest
  obtain ⟨last, hlast, rfl⟩ := List.mem_map.mp hrest
  obtain ⟨third, hthird, hlast⟩ := List.mem_flatMap.mp hlast
  obtain ⟨done, hdone, rfl⟩ := List.mem_map.mp hlast
  rw [Bool.false_and] at hsecond hthird
  refine ⟨second.taken, fun hmem => ?_, ?_⟩
  · have hother := Ccm.taken_many _ _ second hsecond '"' hmem
    cases hother
  · have hnone := List.mem_singleton.mp hdone
    show first.taken ++ (second.taken ++ (third.taken ++ done.taken)) = _
    rw [taken_word hfirst, taken_word hthird, hnone, List.append_nil]
    rfl

theorem closed_attrsRe (s : Text) : ∀ m ∈ attrsRe.prefixes false s, Closed m.taken := by
  refine Regex.taken_star (fun more => rfl) (fun s m hm u hu more => ?_) s
  rcases List.mem_append.mp hm with hm | hm
  · cases s with
    | nil => cases hm
    | cons c s =>
      rw [Regex.prefixes] at hm
      split_ifs at hm with hc
      · rw [Bool.and_eq_true, bne_iff_ne, bne_iff_ne] at hc
        rw [List.mem_singleton.mp hm, List.append_assoc, List.singleton_append, attributesEnd,
          if_neg hc.1, if_neg fun hclose => hc.2 hclose.1, hu]
        rfl
      · cases hm
  · obtain ⟨inner, hinner, htaken⟩ := taken_quotedRe s m hm
    have hassoc : m.taken ++ u ++ '>' :: more = '"' :: (inner ++ '"' :: (u ++ '>' :: more)) := by
      rw [htaken]
      simp only [List.cons_append, List.append_assoc, List.nil_append]
    rw [hassoc, attributesEnd, if_pos rfl, Bool.not_false, attributesEnd_quoted hinner, hu, htaken]
    simp only [Option.map_some, List.cons_append, List.append_assoc, List.nil_append]

theorem exists_many {p : Char → Bool} {inner : Text} (h : ∀ c ∈ inner, p c = true) (rest : Text) :
    { taken := inner, rest := rest } ∈ (many (.char p)).prefixes false (inner ++ rest) := by
  induction inner with
  | nil => exact Regex.mem_star.mpr (Or.inl rfl)
  | cons c inner ih =>
    refine Regex.mem_star.mpr (Or.inr ⟨{ taken := [c], rest := inner ++ rest }, ?_,
      List.cons_ne_nil _ _, _, ih fun d hd => h d (List.mem_cons_of_mem c hd), rfl⟩)
    rw [List.cons_append, Regex.prefixes, if_pos (h c List.mem_cons_self)]
    exact List.mem_singleton_self _

theorem exists_word (w rest : Text) :
    { taken := w, rest := rest } ∈ (word w).prefixes false (w ++ rest) := by
  rw [Regex.word_prefixes, if_pos (List.prefix_append _ _), List.drop_left]
  exact List.mem_singleton_self _

theorem exists_quotedRe {inner : Text} (h : '"' ∉ inner) (rest : Text) :
    { taken := '"' :: (inner ++ ['"']), rest := rest } ∈
      quotedRe.prefixes false ('"' :: (inner ++ '"' :: rest)) := by
  have hinner : ∀ c ∈ inner, (c != '"') = true := by
    intro c hc
    rw [bne_iff_ne]
    rintro rfl
    exact h hc
  refine List.mem_flatMap.mpr ⟨_, exists_word ['"'] (inner ++ '"' :: rest), ?_⟩
  refine List.mem_map.mpr ⟨{ taken := inner ++ ['"'], rest := rest }, ?_, rfl⟩
  refine List.mem_flatMap.mpr ⟨_, exists_many hinner ('"' :: rest), ?_⟩
  refine List.mem_map.mpr ⟨{ taken := ['"'], rest := rest }, ?_, rfl⟩
  refine List.mem_flatMap.mpr ⟨_, exists_word ['"'] rest, ?_⟩
  exact List.mem_map.mpr ⟨{ taken := [], rest := rest }, List.mem_singleton_self _, rfl⟩

theorem exists_attrsRe {s values : Text} (h : attributesEnd false s = some values) :
    ∃ m ∈ attrsRe.prefixes false s, m.taken = values := by
  induction hlen : s.length using Nat.strong_induction_on generalizing s values with
  | _ n ih =>
    cases s with
    | nil => cases h
    | cons c s =>
      rw [attributesEnd] at h
      split_ifs at h with hquote hclose
      · obtain ⟨tail, htail, rfl⟩ := Option.map_eq_some_iff.mp h
        obtain ⟨inner, later, rest, hinner, rfl, hlater, rfl⟩ := exists_quoted htail
        have hshorter : rest.length < n := by
          rw [← hlen, List.length_cons, List.length_append, List.length_cons]
          omega
        obtain ⟨m, hm, rfl⟩ := ih _ hshorter hlater rfl
        have hfirst : { taken := '"' :: (inner ++ ['"']), rest := rest } ∈
            (Regex.alt (.char fun c => c != '"' && c != '>') quotedRe).prefixes false
              (c :: (inner ++ '"' :: rest)) := by
          rw [hquote]
          exact List.mem_append_right _ (exists_quotedRe hinner rest)
        refine ⟨_, Regex.mem_star.mpr (Or.inr ⟨_, hfirst, List.cons_ne_nil _ _, m, hm, rfl⟩), ?_⟩
        show '"' :: (inner ++ ['"']) ++ m.taken = _
        rw [hquote, List.cons_append, List.append_assoc]
        rfl
      · obtain rfl := Option.some.inj h
        exact ⟨_, Regex.mem_star.mpr (Or.inl rfl), rfl⟩
      · obtain ⟨later, hlater, rfl⟩ := Option.map_eq_some_iff.mp h
        obtain ⟨m, hm, rfl⟩ := ih _ (by rw [← hlen]; exact Nat.lt_succ_self _) hlater rfl
        have hc : (c != '"' && c != '>') = true := by
          rw [Bool.and_eq_true, bne_iff_ne, bne_iff_ne]
          exact ⟨hquote, fun h => hclose ⟨h, rfl⟩⟩
        have hfirst : { taken := [c], rest := s } ∈
            (Regex.alt (.char fun c => c != '"' && c != '>') quotedRe).prefixes false (c :: s) := by
          refine List.mem_append_left _ ?_
          rw [Regex.prefixes, if_pos hc]
          exact List.mem_singleton_self _
        exact ⟨_, Regex.mem_star.mpr (Or.inr ⟨_, hfirst, List.cons_ne_nil _ _, m, hm, rfl⟩), rfl⟩

/-! ## The record expression on a record -/

theorem taken_closingRe (t : Text) : ∀ m ∈ closingRe.prefixes false t,
    ∃ values, Closed values ∧ m.taken = attrsStart ++ (values ++ ['>']) := by
  intro m hm
  obtain ⟨first, hfirst, hm⟩ := List.mem_flatMap.mp hm
  obtain ⟨rest, hrest, rfl⟩ := List.mem_map.mp hm
  obtain ⟨second, hsecond, hrest⟩ := List.mem_flatMap.mp hrest
  obtain ⟨attrs, hattrs, rfl⟩ := List.mem_map.mp hsecond
  obtain ⟨last, hlast, rfl⟩ := List.mem_map.mp hrest
  obtain ⟨third, hthird, hlast⟩ := List.mem_flatMap.mp hlast
  obtain ⟨done, hdone, rfl⟩ := List.mem_map.mp hlast
  rw [Bool.false_and] at hattrs hthird
  have hnone := List.mem_singleton.mp hdone
  refine ⟨attrs.taken, closed_attrsRe _ attrs hattrs, ?_⟩
  show first.taken ++ (attrs.taken ++ (third.taken ++ done.taken)) = _
  rw [taken_word hfirst, taken_word hthird, hnone, List.append_nil]

theorem closingRe_ne_nil {attrs values : Text} (h : attributesEnd false attrs = some values) :
    closingRe.prefixes false (attrsStart ++ attrs) ≠ [] := by
  obtain ⟨more, rfl⟩ := attributesEnd_eq h
  obtain ⟨m, hm, rfl⟩ := exists_attrsRe h
  have hrest : m.rest = '>' :: more :=
    List.append_cancel_left (Regex.prefixes_append attrsRe false _ m hm)
  have hmem : Match.before { taken := attrsStart, rest := m.taken ++ '>' :: more }
      (Match.before { m with groups := (2, m.taken) :: m.groups }
        { taken := ['>'], rest := more }) ∈
      closingRe.prefixes false (attrsStart ++ (m.taken ++ '>' :: more)) := by
    refine List.mem_flatMap.mpr ⟨_, exists_word attrsStart _, List.mem_map_of_mem ?_⟩
    refine List.mem_flatMap.mpr ⟨_, List.mem_map_of_mem hm, List.mem_map_of_mem ?_⟩
    show _ ∈ Regex.prefixes (.seq (word ['>']) .empty) false m.rest
    rw [hrest]
    refine List.mem_flatMap.mpr ⟨_, exists_word ['>'] more, ?_⟩
    exact List.mem_map.mpr ⟨{ taken := [], rest := more }, List.mem_singleton_self _, rfl⟩
  exact List.ne_nil_of_mem hmem

def FirstClosing (message closing : Text) : Prop :=
  ∀ u t, message ++ closing = u ++ t → attrsStart <+: t → message.length ≤ u.length

theorem captures_record {message values : Text} (hvalues : Closed values)
    (hfirst : FirstClosing message (attrsStart ++ (values ++ ['>']))) :
    ∃ caps, imeRecordRe.captures (recordStart ++ (message ++ (attrsStart ++ (values ++ ['>'])))) =
        some caps ∧
      caps.taken = recordStart ++ (message ++ (attrsStart ++ (values ++ ['>']))) := by
  set body := message ++ (attrsStart ++ (values ++ ['>']))
  have hsome : closingRe.afterAny 1 [] body ≠ [] := by
    obtain ⟨ending, hending⟩ := List.exists_mem_of_ne_nil _ (closingRe_ne_nil (hvalues []))
    exact List.ne_nil_of_mem
      (Regex.mem_afterAny.mpr ⟨message, _, rfl, ending, hending, rfl⟩)
  obtain ⟨m, others, hm⟩ := List.exists_cons_of_ne_nil hsome
  obtain ⟨v, t, ending, hbody, hending, rfl, hleast⟩ := Regex.head_afterAny
    (show (closingRe.afterAny 1 [] body).head? = some m by rw [hm]; rfl)
  have hmem := List.mem_of_mem_head? hending
  obtain ⟨values', hvalues', htaken⟩ := taken_closingRe t ending hmem
  have ht : ending.taken ++ ending.rest = t := Regex.prefixes_append closingRe false t ending hmem
  rw [htaken] at ht
  -- the shortest message is the one before the first attributes
  have hle : message.length ≤ v.length :=
    hfirst v t hbody ⟨values' ++ ['>'] ++ ending.rest, by rw [← ht, List.append_assoc attrsStart]⟩
  have hge : v.length ≤ message.length := hleast message _ rfl (closingRe_ne_nil (hvalues []))
  obtain ⟨hv, hclosing⟩ := List.append_inj hbody (Nat.le_antisymm hle hge)
  have hattrs : values ++ ['>'] = values' ++ '>' :: ending.rest := by
    rw [← ht, List.append_assoc] at hclosing
    have hcancel := List.append_cancel_left hclosing
    rwa [List.append_assoc, List.singleton_append] at hcancel
  have hsame : values = values' := by
    have hend := hvalues []
    rw [hattrs, hvalues'] at hend
    exact (Option.some.inj hend).symm
  have hrest : ending.rest = [] := by
    rw [hsame] at hattrs
    exact (List.cons.inj (List.append_cancel_left hattrs)).2.symm
  have hcaptures : imeRecordRe.captures (recordStart ++ body) =
      some (Match.before { taken := recordStart, rest := body }
        (Match.before { taken := v, rest := t, groups := [(1, v)] } ending)) := by
    have hprefixes : imeRecordRe.prefixes true (recordStart ++ body) =
        (closingRe.afterAny 1 [] body).map
          (Match.before { taken := recordStart, rest := body }) := by
      rw [Regex.prefixes_atBegin (show imeRecordRe.unanchored = true from rfl) true false,
        imeRecordRe_eq, Regex.opened_prefixes, if_pos (List.prefix_append _ _), List.drop_left]
    rw [Regex.captures]
    unfold Regex.findFrom
    rw [hprefixes, hm]
    rfl
  refine ⟨_, hcaptures, ?_⟩
  show recordStart ++ (v ++ ending.taken) = _
  rw [hbody, ← ht, htaken, hrest, List.append_nil]

/-! ## Complete records -/

theorem findText_least {needle s gap found : Text} (h : findText needle s = some (gap, found))
    {u t : Text} (hs : s = u ++ t) (hneedle : needle <+: t) : gap.length ≤ u.length := by
  induction s generalizing gap u with
  | nil => cases h
  | cons c s ih =>
    rw [findText] at h
    split_ifs at h with hstarts
    · cases h
      exact Nat.zero_le _
    · obtain ⟨later, hlater, heq⟩ := Option.map_eq_some_iff.mp h
      cases heq
      cases u with
      | nil => exact absurd (List.isPrefixOf_iff_prefix.mpr (hs ▸ hneedle)) hstarts
      | cons d u =>
        obtain ⟨rfl, rfl⟩ := List.cons.inj hs
        exact Nat.succ_le_succ (ih hlater rfl)

theorem recordBoundary_complete {host : ImeHost} {tail : Text} {length : Nat}
    (hstart : recordStart <+: tail) (h : recordBoundary host tail = .complete length) :
    ∃ message values, Closed values ∧ FirstClosing message (attrsStart ++ (values ++ ['>'])) ∧
      tail.take length = recordStart ++ (message ++ (attrsStart ++ (values ++ ['>']))) ∧
      (tail.take length).length = length := by
  obtain ⟨beyond, htail⟩ := boundedPrefix_isPrefix tail maxImeRecordBytes
  have hunclosed : ∀ {b : RecordBoundary}, b = (if maxImeRecordBytes ≤ byteLen tail then
      .capped (boundedPrefix tail maxImeRecordBytes).length else .incomplete) →
      b ≠ .complete length := by
    intro b hb hcomplete
    rw [hcomplete] at hb
    split_ifs at hb
  rw [recordBoundary] at h
  dsimp only at h
  by_cases hshort : (boundedPrefix tail maxImeRecordBytes).length < recordStart.length
  · rw [if_pos hshort] at h
    cases h
  · rw [if_neg hshort] at h
    have hopened : recordStart <+: boundedPrefix tail maxImeRecordBytes :=
      List.prefix_of_prefix_length_le hstart ⟨beyond, htail⟩ (Nat.le_of_not_lt hshort)
    obtain ⟨inner, hinner⟩ := hopened
    rw [← hinner, List.drop_left] at h
    cases hfind : findText attrsStart inner with
    | none =>
      rw [hfind, hinner] at h
      exact absurd h (hunclosed rfl)
    | some found =>
      obtain ⟨message, closing⟩ := found
      obtain ⟨rfl, attrs, rfl⟩ := findText_eq_some hfind
      rw [hfind] at h
      dsimp only at h
      rw [List.drop_left] at h
      cases houter : (attributesEnd false attrs).filter fun values =>
          validAttributes values || !contains (values ++ ['>']) recordStart with
      | none =>
        rw [houter] at h
        dsimp only at h
        split at h
        · cases h
        · rw [hinner] at h
          exact absurd h (hunclosed rfl)
      | some values =>
        rw [houter] at h
        have hvalues := (Option.filter_eq_some_iff.mp houter).1
        obtain ⟨more, rfl⟩ := attributesEnd_eq hvalues
        refine ⟨message, values, attributesEnd_append hvalues, ?_, ?_⟩
        · intro u t hut hstarts
          refine findText_least hfind (u := u) (t := t ++ more) ?_
            (hstarts.trans (List.prefix_append _ _))
          rw [← List.append_assoc u, ← hut]
          simp only [List.append_assoc, List.singleton_append]
        · have hlength : recordStart.length + message.length + attrsStart.length +
              values.length + 1 = length := RecordBoundary.complete.inj h
          have hwhole : tail = recordStart ++ (message ++ (attrsStart ++ (values ++ ['>']))) ++
              (more ++ beyond) := by
            rw [← htail, ← hinner]
            simp only [List.append_assoc, List.cons_append, List.nil_append]
          have hsize : length =
              (recordStart ++ (message ++ (attrsStart ++ (values ++ ['>'])))).length := by
            simp only [List.length_append, List.length_singleton]
            omega
          rw [hwhole, hsize, List.take_left]
          exact ⟨rfl, rfl⟩

/-! ## Spans -/

def Returns (s : Text) : Prop := ∀ c ∈ s, c = '\r' ∨ c = '\n'

/-- What an entry is of the text it stands for, which `before` precedes. -/
structure Stands (host : ImeHost) (before : Text) (entry : ParsedImeRecord) (span : Text) :
    Prop where
  taking : span ≠ []
  numbered : entry.line.lineNumber = 1 + before.count '\n'
  fragment : entry.isFragment = true →
    entry.line.message = span ∧ byteLen span ≤ maxImeRecordBytes
  record : entry.isFragment = false → ∃ caps, imeRecordRe.captures span = some caps ∧
    caps.taken = span ∧ parseRecord host caps entry.line.lineNumber = some entry

/-- The entries of a text in their order, each with its span; between two spans, before
the first and after the last there are line ends only. -/
inductive Laid (host : ImeHost) : Text → List ParsedImeRecord → Text → Prop
  | done {before blank : Text} : Returns blank → Laid host before [] blank
  | entry {before blank span rest : Text} {entry : ParsedImeRecord}
      {entries : List ParsedImeRecord} :
      Returns blank → Stands host (before ++ blank) entry span →
      Laid host (before ++ blank ++ span) entries rest →
      Laid host before (entry :: entries) (blank ++ (span ++ rest))

namespace Laid

variable {host : ImeHost} {before s t : Text} {entries later : List ParsedImeRecord}

theorem after {blank : Text} (hblank : Returns blank) (h : Laid host (before ++ blank) entries s) :
    Laid host before entries (blank ++ s) := by
  cases h with
  | done hdone =>
    refine .done fun c hc => ?_
    rcases List.mem_append.mp hc with hc | hc
    · exact hblank c hc
    · exact hdone c hc
  | @entry _ more span rest entry entries hmore hstands hrest =>
    rw [List.append_assoc before] at hstands hrest
    rw [← List.append_assoc blank]
    refine .entry (fun c hc => ?_) hstands hrest
    rcases List.mem_append.mp hc with hc | hc
    · exact hblank c hc
    · exact hmore c hc

theorem append (h : Laid host before entries s) (hlater : Laid host (before ++ s) later t) :
    Laid host before (entries ++ later) (s ++ t) := by
  induction h with
  | done hblank => exact hlater.after hblank
  | entry hblank hstands hrest ih =>
    rw [List.append_assoc, List.append_assoc]
    refine .entry hblank hstands (ih ?_)
    simpa only [List.append_assoc] using hlater

theorem length_le (h : Laid host before entries s) : entries.length ≤ s.length := by
  induction h with
  | done _ => exact Nat.zero_le _
  | entry _ hstands _ ih =>
    have hpos := List.length_pos_iff.mpr hstands.taking
    rw [List.length_cons, List.length_append, List.length_append]
    omega

end Laid

/-! ## Fragments -/

theorem byteLen_boundedPrefix_le (text : Text) (limit : Nat) :
    byteLen (boundedPrefix text limit) ≤ limit := by
  rw [boundedPrefix]
  split_ifs
  · exact (byteLen_prefix_le (List.dropLast_prefix _)).trans (byteLen_takeBytes_le limit text)
  · exact byteLen_takeBytes_le limit text

theorem laid_chunks {host : ImeHost} {fuel : Nat} {line before : Text} (h : line.length ≤ fuel)
    (hfeed : '\n' ∉ line) :
    Laid host before ((chunksFrom fuel line).map (fragment (1 + before.count '\n'))) line := by
  induction fuel generalizing line before with
  | zero =>
    rw [List.eq_nil_of_length_eq_zero (Nat.le_zero.mp h)]
    exact .done fun c hc => absurd hc List.not_mem_nil
  | succ fuel ih =>
    rw [chunksFrom]
    split_ifs with hline
    · rw [hline]
      exact .done fun c hc => absurd hc List.not_mem_nil
    · obtain ⟨rest, hrest⟩ := boundedPrefix_isPrefix line maxImeRecordBytes
      have hdrop : line.drop (boundedPrefix line maxImeRecordBytes).length = rest :=
        (congrArg _ hrest.symm).trans List.drop_left
      have hne := boundedPrefix_ne_nil hline
      have hpos := List.length_pos_iff.mpr hne
      have hlength := congrArg List.length hrest
      have hbytes := byteLen_boundedPrefix_le line maxImeRecordBytes
      rw [List.length_append] at hlength
      dsimp only
      rw [hdrop, List.map_cons]
      generalize boundedPrefix line maxImeRecordBytes = chunk at *
      rw [← hrest, List.mem_append, not_or] at hfeed
      have hlater := @ih rest (before ++ chunk) (by omega) hfeed.2
      rw [List.count_append, List.count_eq_zero_of_not_mem hfeed.1, Nat.add_zero] at hlater
      rw [← hrest, ← List.nil_append (chunk ++ rest)]
      refine .entry (fun c hc => absurd hc List.not_mem_nil) ?_ ?_
      · rw [List.append_nil]
        exact
          { taking   := hne
            numbered := rfl
            fragment := fun _ => ⟨rfl, hbytes⟩
            record   := fun hrecord => by cases hrecord }
      · rw [List.append_nil]
        exact hlater

theorem trimReturns_append (piece : Text) :
    ∃ blank, Returns blank ∧ piece = trimReturns piece ++ blank := by
  refine ⟨piece.rtakeWhile fun c => c == '\r' || c == '\n', fun c hc => ?_,
    List.rdropWhile_append_rtakeWhile.symm⟩
  have hreturn := List.mem_rtakeWhile_imp hc
  rw [Bool.or_eq_true, beq_iff_eq, beq_iff_eq] at hreturn
  exact hreturn

theorem laid_pieces {host : ImeHost} {content front rest : Text} {pieces : List Text}
    (hpieces : ∀ piece ∈ pieces, '\n' ∉ trimReturns piece)
    (hcontent : content = front ++ (pieces.flatten ++ rest)) :
    Laid host front (pieceFragments (buildLineStarts content) front.length pieces)
      pieces.flatten := by
  induction pieces generalizing front with
  | nil => exact .done fun c hc => absurd hc List.not_mem_nil
  | cons piece pieces ih =>
    have hnumber : lineNumberForOffset (buildLineStarts content) front.length =
        1 + front.count '\n' := by
      rw [hcontent, lineNumberForOffset_eq]
    have hlater := @ih (front ++ piece)
      (fun other hother => hpieces other (List.mem_cons_of_mem _ hother)) (by
        rw [hcontent, List.flatten_cons]
        simp only [List.append_assoc])
    rw [List.length_append] at hlater
    rw [pieceFragments, hnumber, List.flatten_cons]
    obtain ⟨blank, hblank, hpiece⟩ := trimReturns_append piece
    have hline : Laid host front ((lineChunks (trimReturns piece)).map
        (fragment (1 + front.count '\n'))) piece := by
      have hchunks := (@laid_chunks host _ (trimReturns piece) front (Nat.le_refl _)
        (hpieces piece List.mem_cons_self)).append (.done hblank)
      rwa [List.append_nil, ← hpiece] at hchunks
    exact hline.append hlater

theorem not_mem_splitInclusive (s : Text) :
    ∀ piece ∈ splitInclusive s, '\n' ∉ trimReturns piece := by
  intro piece hpiece hmem
  have htrim : ∀ line, '\n' ∉ line → '\n' ∉ trimReturns line := fun line hline h =>
    hline ((trimReturns_isPrefix line).subset h)
  rcases List.mem_append.mp hpiece with hpiece | hpiece
  · obtain ⟨line, hline, rfl⟩ := List.mem_map.mp hpiece
    rw [trimReturns_concat rfl] at hmem
    exact htrim line (not_mem_terminated s line hline) hmem
  · split_ifs at hpiece
    · cases hpiece
    · rw [List.mem_singleton.mp hpiece] at hmem
      exact htrim _ (not_mem_lastLine s) hmem

theorem laid_segment {host : ImeHost} {content front segment rest : Text}
    (hcontent : content = front ++ (segment ++ rest)) :
    Laid host front (segmentFragments (buildLineStarts content) segment front.length) segment := by
  have hlaid := @laid_pieces host content front rest (splitInclusive segment)
    (not_mem_splitInclusive segment) (by rw [splitInclusive_flatten, hcontent])
  rwa [splitInclusive_flatten] at hlaid

/-! ## The entries of a content -/

theorem parseRecord_fields {host : ImeHost} {caps : Match} {lineNumber : Nat}
    {record : ParsedImeRecord} (h : parseRecord host caps lineNumber = some record) :
    record.isFragment = false ∧ record.line.lineNumber = lineNumber := by
  rw [parseRecord] at h
  obtain ⟨message, -, h⟩ := Option.bind_eq_some_iff.mp h
  obtain ⟨attrs, -, h⟩ := Option.bind_eq_some_iff.mp h
  rw [← Option.some.inj h]
  exact ⟨rfl, rfl⟩

theorem laid_framed {host : ImeHost} {content front framed rest : Text}
    (hcontent : content = front ++ (framed ++ rest))
    (hwhole : ∃ caps, imeRecordRe.captures framed = some caps ∧ caps.taken = framed)
    (hne : framed ≠ []) :
    Laid host front (framedEntries host (buildLineStarts content) framed front.length) framed := by
  obtain ⟨caps, hcaptures, htaken⟩ := hwhole
  have hnumber : lineNumberForOffset (buildLineStarts content) front.length =
      1 + front.count '\n' := by
    rw [hcontent, lineNumberForOffset_eq]
  rw [framedEntries, hcaptures, Option.bind_some, hnumber]
  cases hrecord : parseRecord host caps (1 + front.count '\n') with
  | none => exact laid_segment hcontent
  | some record =>
    obtain ⟨hfragment, hline⟩ := parseRecord_fields hrecord
    have hstands : Stands host (front ++ []) record framed :=
      { taking   := hne
        numbered := by rw [hline, List.append_nil]
        fragment := fun h => absurd (hfragment ▸ h) Bool.false_ne_true
        record   := fun _ => ⟨caps, hcaptures, htaken, by rw [hline, hrecord]⟩ }
    have hlaid := Laid.entry (fun c hc => absurd hc List.not_mem_nil) hstands
      (.done fun c hc => absurd hc List.not_mem_nil)
    rwa [List.append_nil, List.nil_append] at hlaid

theorem laid_remaining {host : ImeHost} {content front : Text} {cursor : ImeCursor}
    (hoffset : cursor.offset = front.length)
    (hcontent : content = front ++ (cursor.pending ++ cursor.rest)) :
    Laid host front (cursor.remaining (buildLineStarts content))
      (cursor.pending ++ cursor.rest) := by
  rw [ImeCursor.remaining, hoffset]
  exact @laid_segment host content front _ [] (by rw [List.append_nil, hcontent])

theorem laid_entriesFrom {host : ImeHost} {content front : Text} (fuel : Nat) {cursor : ImeCursor}
    (hoffset : cursor.offset = front.length)
    (hcontent : content = front ++ (cursor.pending ++ cursor.rest)) :
    Laid host front (entriesFrom host (buildLineStarts content) fuel cursor).1
      (cursor.pending ++ cursor.rest) := by
  induction fuel generalizing front cursor with
  | zero => exact laid_remaining hoffset hcontent
  | succ fuel ih =>
    rw [entriesFrom]
    cases hfind : findText recordStart cursor.rest with
    | none => exact laid_remaining hoffset hcontent
    | some found =>
      obtain ⟨gap, tail⟩ := found
      obtain ⟨hrest, hstart⟩ := findText_eq_some hfind
      dsimp only
      cases hboundary : recordBoundary host tail with
      | incomplete => exact laid_remaining hoffset hcontent
      | interrupted next =>
        -- what is passed over waits for the next record
        have hsame : cursor.pending ++ cursor.rest =
            cursor.pending ++ gap ++ tail.take next ++ tail.drop next := by
          rw [List.append_assoc (cursor.pending ++ gap), List.take_append_drop, hrest,
            List.append_assoc]
        rw [hsame] at hcontent ⊢
        exact @ih front { cursor with
          pending := cursor.pending ++ gap ++ tail.take next, rest := tail.drop next }
          hoffset hcontent
      | capped length =>
        dsimp only
        have hsame : cursor.pending ++ cursor.rest =
            (cursor.pending ++ gap ++ tail.take length) ++ tail.drop length := by
          rw [List.append_assoc (cursor.pending ++ gap), List.take_append_drop, hrest,
            List.append_assoc]
        rw [hsame] at hcontent ⊢
        rw [hoffset]
        generalize cursor.pending ++ gap ++ tail.take length = segment at *
        refine (laid_segment hcontent).append ?_
        exact @ih (front ++ segment)
          { offset := front.length + segment.length, rest := tail.drop length, matchedAny := true }
          (List.length_append.symm) (by rw [hcontent, List.append_assoc]; rfl)
      | complete length =>
        dsimp only
        have hsame : cursor.pending ++ cursor.rest =
            (cursor.pending ++ gap) ++ (tail.take length ++ tail.drop length) := by
          rw [List.take_append_drop, hrest, List.append_assoc]
        obtain ⟨message, values, hvalues, hfirst, hframed, hlength⟩ :=
          recordBoundary_complete hstart hboundary
        have hwhole := captures_record hvalues hfirst
        have hne : tail.take length ≠ [] := by
          rw [hframed]
          exact List.append_ne_nil_of_left_ne_nil (by decide) _
        rw [← hframed] at hwhole
        rw [hsame] at hcontent ⊢
        rw [hoffset]
        generalize cursor.pending ++ gap = segment at *
        generalize tail.take length = framed at *
        have hnext : front.length + segment.length = (front ++ segment).length :=
          List.length_append.symm
        refine (laid_segment hcontent).append ?_
        rw [hnext]
        rw [← List.append_assoc] at hcontent
        refine (laid_framed hcontent hwhole hne).append ?_
        exact @ih (front ++ segment ++ framed)
          { offset     := (front ++ segment).length + length
            rest       := tail.drop length
            matchedAny := true }
          (by rw [← hlength]; exact List.length_append.symm)
          (by rw [hcontent]; exact (List.append_assoc _ _ _).symm)

/-! ## Fragments and errors -/

def Counted (build : ParsedImeChunk) : Prop :=
  build.parseErrors = build.entries.countP fun entry => entry.isFragment

theorem isFragment_segmentFragments (lineStarts : List Nat) (segment : Text) (baseOffset : Nat) :
    ∀ entry ∈ segmentFragments lineStarts segment baseOffset, entry.isFragment = true := by
  rw [segmentFragments]
  generalize splitInclusive segment = pieces
  induction pieces generalizing baseOffset with
  | nil =>
    intro entry hentry
    cases hentry
  | cons piece pieces ih =>
    intro entry hentry
    rcases List.mem_append.mp hentry with hentry | hentry
    · obtain ⟨chunk, -, rfl⟩ := List.mem_map.mp hentry
      rfl
    · exact ih _ entry hentry

theorem Counted.pushUnmatchedSegment {maxEntries : Nat} {build : ParsedImeChunk}
    (h : Counted build) (lineStarts : List Nat) (segment : Text) (baseOffset : Nat) :
    Counted (pushUnmatchedSegment maxEntries lineStarts segment baseOffset build) := by
  have hfragments := isFragment_segmentFragments lineStarts segment baseOffset
  rw [pushUnmatchedSegment_eq, Counted, ParsedImeChunk.push, upTo, List.countP_append, ← h]
  refine congrArg _ (List.countP_eq_length.mpr fun entry hentry => ?_).symm
  exact hfragments entry (List.mem_of_mem_take hentry)

theorem Counted.pushFramed {host : ImeHost} {maxEntries : Nat} {build : ParsedImeChunk}
    (h : Counted build) (lineStarts : List Nat) (framed : Text) (offset : Nat) :
    Counted (pushFramed host maxEntries lineStarts framed offset build) := by
  rw [Ime.pushFramed]
  cases hrecord : (imeRecordRe.captures framed).bind fun caps =>
      parseRecord host caps (lineNumberForOffset lineStarts offset) with
  | none => exact h.pushUnmatchedSegment lineStarts framed offset
  | some record =>
    obtain ⟨caps, -, hparse⟩ := Option.bind_eq_some_iff.mp hrecord
    show build.parseErrors = _
    rw [List.countP_append, List.countP_singleton, (parseRecord_fields hparse).1,
      if_neg Bool.false_ne_true, Nat.add_zero]
    exact h

theorem counted_scanRecords {host : ImeHost} {maxEntries : Nat} {lineStarts : List Nat}
    (fuel : Nat) (cursor : ImeCursor) {build : ParsedImeChunk} (h : Counted build) :
    Counted (scanRecords host maxEntries lineStarts fuel cursor build).1 := by
  induction fuel generalizing cursor build with
  | zero => exact h
  | succ fuel ih =>
    rw [scanRecords]
    cases findText recordStart cursor.rest with
    | none => exact h
    | some found =>
      dsimp only
      by_cases hfull : maxEntries ≤ build.entries.length
      · rw [if_pos hfull]
        exact h
      · rw [if_neg hfull]
        cases recordBoundary host found.2 with
        | incomplete => exact h
        | interrupted next => exact ih _ h
        | capped length => exact ih _ (h.pushUnmatchedSegment lineStarts _ _)
        | complete length =>
          have hpushed := @Counted.pushUnmatchedSegment maxEntries build h lineStarts
            (cursor.pending ++ found.1) cursor.offset
          dsimp only
          split_ifs
          · exact hpushed
          · exact ih _ (hpushed.pushFramed lineStarts _ _)

def matchedAny (host : ImeHost) (content : Text) : Bool :=
  (scanRecords host usizeMax (buildLineStarts content) content.length
    { rest := content } {}).2.matchedAny

/-- A content in which a record is framed is laid out in records and fragments. -/
theorem parse_lossless (host : ImeHost) {content : Text} (hcontent : byteLen content < 2 ^ 63)
    (hmatched : matchedAny host content = true) :
    Laid host [] (parseImeRecords host usizeMax content).entries content ∧
    (parseImeRecords host usizeMax content).parseErrors =
      (parseImeRecords host usizeMax content).entries.countP fun entry => entry.isFragment := by
  have hmax : (2 : Nat) ^ 63 ≤ usizeMax := by decide
  have hlaid : Laid host [] (entriesFrom host (buildLineStarts content) content.length
      { rest := content }).1 content :=
    @laid_entriesFrom host content [] content.length { rest := content } rfl rfl
  have hlength := hlaid.length_le.trans (length_le_byteLen content)
  have hparse : parseImeRecords host usizeMax content =
      pushUnmatchedSegment usizeMax (buildLineStarts content)
        ((scanRecords host usizeMax (buildLineStarts content) content.length
            { rest := content } {}).2.pending ++
          (scanRecords host usizeMax (buildLineStarts content) content.length
            { rest := content } {}).2.rest)
        (scanRecords host usizeMax (buildLineStarts content) content.length
          { rest := content } {}).2.offset
        (scanRecords host usizeMax (buildLineStarts content) content.length
          { rest := content } {}).1 := by
    rw [parseImeRecords]
    exact if_pos hmatched
  constructor
  · have hentries : (parseImeRecords host usizeMax content).entries =
        (entriesFrom host (buildLineStarts content) content.length { rest := content }).1 := by
      have hfinish : finish usizeMax (buildLineStarts content) (scanRecords host usizeMax
          (buildLineStarts content) content.length { rest := content } {}) = _ :=
        finish_scanRecords content.length { rest := content } {}
      rw [hparse, pushUnmatchedSegment_eq]
      refine hfinish.trans ?_
      rw [upTo, List.nil_append, List.take_of_length_le]
      rw [List.length_nil, Nat.sub_zero]
      omega
    rw [hentries]
    exact hlaid
  · rw [hparse]
    have hempty : Counted {} := rfl
    exact (counted_scanRecords _ _ hempty).pushUnmatchedSegment _ _ _

/-- A line, and a record in the next line. -/
theorem parse_lossless_line :
    Laid universal [] (parseImeRecords universal usizeMax
      ['a', '\r', '\n', '<', '!', '[', 'L', 'O', 'G', '[', 'x', ']', 'L', 'O', 'G', ']', '!', '>',
        '<', '>', '\n']).entries
      ['a', '\r', '\n', '<', '!', '[', 'L', 'O', 'G', '[', 'x', ']', 'L', 'O', 'G', ']', '!', '>',
        '<', '>', '\n'] :=
  (parse_lossless universal (by decide +kernel) (by decide +kernel)).1

end Ime
end Parser
end CmTrace
