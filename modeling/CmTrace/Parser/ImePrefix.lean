import CmTrace.Parser.ImeBounded

/-!
# When a bounded reading is a prefix

A bounded reading that stops before the first complete record takes the lines of the
content instead of its fragments.  The two agree on a line unless it is blank, ends in a
carriage return of its own, has a timestamp or goes on with the record.
-/

namespace CmTrace
namespace Parser
namespace Ime

open Text Log Time Ccm

/-! ## Chunks of a line -/

theorem boundedPrefix_isPrefix (text : Text) (limit : Nat) : boundedPrefix text limit <+: text := by
  rw [boundedPrefix]
  split_ifs
  · exact (List.dropLast_prefix _).trans ( takeBytes_prefixed limit text)
  · exact takeBytes_prefixed limit text

theorem boundedPrefix_of_lt {line : Text} (h : byteLen line < maxImeRecordBytes) :
    boundedPrefix line maxImeRecordBytes = line := by
  rw [boundedPrefix, takeBytes_of_le h.le, if_neg fun hcap => absurd hcap.1 h.ne]

theorem boundedPrefix_ne_nil {line : Text} (h : line ≠ []) :
    boundedPrefix line maxImeRecordBytes ≠ [] := by
  obtain ⟨c, rest, rfl⟩ := List.exists_cons_of_ne_nil h
  have hsize : c.utf8Size ≤ maxImeRecordBytes := by
    have hfour := c.utf8Size_le_four
    rw [maxImeRecordBytes]
    omega
  have hcons : takeBytes maxImeRecordBytes (c :: rest) =
      c :: takeBytes (maxImeRecordBytes - c.utf8Size) rest := by
    rw [takeBytes, if_pos hsize]
  rw [boundedPrefix, hcons]
  split_ifs with hcap
  · -- a cap holds more than one character
    intro hnil
    have hrest : takeBytes (maxImeRecordBytes - c.utf8Size) rest = [] := by
      have hlength := congrArg List.length hnil
      rw [List.length_dropLast, List.length_cons, List.length_nil, Nat.add_sub_cancel] at hlength
      exact List.eq_nil_of_length_eq_zero hlength
    rw [hrest, byteLen_cons, byteLen_nil, maxImeRecordBytes] at hcap
    have hfour := c.utf8Size_le_four
    omega
  · exact List.cons_ne_nil _ _

theorem lineChunks_of_lt {line : Text} (hne : line ≠ []) (h : byteLen line < maxImeRecordBytes) :
    lineChunks line = [line] := by
  obtain ⟨c, rest, rfl⟩ := List.exists_cons_of_ne_nil hne
  rw [lineChunks, List.length_cons, chunksFrom, if_neg hne, boundedPrefix_of_lt h]
  dsimp only
  rw [List.drop_length]
  cases rest.length <;> rfl

theorem chunksFrom_flatten {fuel : Nat} {line : Text} (h : line.length ≤ fuel) :
    (chunksFrom fuel line).flatten = line := by
  induction fuel generalizing line with
  | zero => exact (List.eq_nil_of_length_eq_zero (Nat.le_zero.mp h)).symm
  | succ fuel ih =>
    rw [chunksFrom]
    split_ifs with hline
    · exact hline.symm
    · obtain ⟨rest, hrest⟩ := boundedPrefix_isPrefix line maxImeRecordBytes
      have hdrop : line.drop (boundedPrefix line maxImeRecordBytes).length = rest :=
        (congrArg _ hrest.symm).trans List.drop_left
      have hpos := List.length_pos_iff.mpr (boundedPrefix_ne_nil hline)
      have hlength := congrArg List.length hrest
      rw [List.length_append] at hlength
      rw [List.flatten_cons, hdrop, ih (by omega), hrest]

theorem lineChunks_flatten (line : Text) : (lineChunks line).flatten = line :=
  chunksFrom_flatten (Nat.le_refl _)

theorem ne_nil_of_mem_chunksFrom {fuel : Nat} {line chunk : Text} (h : chunk ∈ chunksFrom fuel line) :
    chunk ≠ [] := by
  induction fuel generalizing line with
  | zero => cases h
  | succ fuel ih =>
    rw [chunksFrom] at h
    split_ifs at h with hline
    · cases h
    · rcases List.mem_cons.mp h with rfl | h
      · exact boundedPrefix_ne_nil hline
      · exact ih h

theorem length_lineChunks_le (line : Text) : (lineChunks line).length ≤ line.length := by
  have hsum : (lineChunks line).length ≤ ((lineChunks line).map List.length).sum := by
    refine le_of_eq_of_le (List.length_map List.length).symm ?_
    refine List.length_le_sum_of_one_le _ fun n hn => ?_
    obtain ⟨chunk, hchunk, rfl⟩ := List.mem_map.mp hn
    exact List.length_pos_iff.mpr (ne_nil_of_mem_chunksFrom hchunk)
  rwa [← List.length_flatten, lineChunks_flatten] at hsum

theorem lineChunks_eq_nil {line : Text} : lineChunks line = [] ↔ line = [] := by
  refine ⟨fun h => ?_, fun h => by rw [h]; rfl⟩
  rw [← lineChunks_flatten line, h]
  rfl

/-! ## Fragments by line -/

theorem trimReturns_concat {c : Char} (h : (c == '\r' || c == '\n') = true) (line : Text) :
    trimReturns (line ++ [c]) = trimReturns line :=
  List.rdropWhile_concat_pos _ _ _ h

theorem trimReturns_strip (line : Text) :
    trimReturns (stripCarriageReturn line) = trimReturns line := by
  rw [stripCarriageReturn]
  split_ifs with h
  · conv_rhs => rw [← List.dropLast_append_getLast? '\r' h]
    exact (trimReturns_concat rfl _).symm
  · rfl

/-- The fragments of complete lines and what follows them, each with the number of its
line. -/
def lineFragments (last : Text) : Nat → List Text → List ParsedImeRecord
  | lineNumber, [] => (lineChunks (trimReturns last)).map (fragment lineNumber)
  | lineNumber, line :: ls =>
    (lineChunks (trimReturns line)).map (fragment lineNumber) ++
      lineFragments last (lineNumber + 1) ls

theorem pieceFragments_lines (content front : Text) {ls : List Text}
    (hls : ∀ line ∈ ls, '\n' ∉ line) (last rest : Text)
    (hcontent : content = front ++ ((ls.map (· ++ ['\n'])).flatten ++ (last ++ rest))) :
    pieceFragments (buildLineStarts content) front.length
      (ls.map (· ++ ['\n']) ++ if last = [] then [] else [last]) =
        lineFragments last (1 + front.count '\n') (ls.map stripCarriageReturn) := by
  induction ls generalizing front with
  | nil =>
    have hnumber : lineNumberForOffset (buildLineStarts content) front.length =
        1 + front.count '\n' := by
      rw [hcontent, lineNumberForOffset_eq]
    rw [List.map_nil, List.nil_append, List.map_nil, lineFragments]
    split_ifs with hlast
    · rw [hlast]
      rfl
    · rw [pieceFragments, pieceFragments, hnumber, List.append_nil]
  | cons line ls ih =>
    have hnumber : lineNumberForOffset (buildLineStarts content) front.length =
        1 + front.count '\n' := by
      rw [hcontent, lineNumberForOffset_eq]
    have hcount : (front ++ (line ++ ['\n'])).count '\n' = front.count '\n' + 1 := by
      rw [List.count_append, List.count_append,
        List.count_eq_zero_of_not_mem (hls line List.mem_cons_self)]
      rfl
    have hrest := ih (front ++ (line ++ ['\n']))
      (fun other hother => hls other (List.mem_cons_of_mem _ hother)) (by
        rw [hcontent, List.map_cons, List.flatten_cons]
        simp only [List.append_assoc])
    rw [hcount, List.length_append] at hrest
    rw [List.map_cons, List.cons_append, pieceFragments, hnumber, hrest, trimReturns_concat rfl,
      List.map_cons, lineFragments, trimReturns_strip]
    rfl

theorem segmentFragments_eq (before rest : Text) :
    segmentFragments (buildLineStarts (before ++ rest)) before 0 =
      lineFragments (lastLine before) 1 (completeLines before) := by
  refine pieceFragments_lines (before ++ rest) [] (not_mem_terminated before) (lastLine before)
    rest ?_
  rw [List.nil_append, ← List.append_assoc, terminated_flatten]

theorem length_pieceFragments_le (lineStarts : List Nat) (offset : Nat) (pieces : List Text) :
    (pieceFragments lineStarts offset pieces).length ≤ pieces.flatten.length := by
  induction pieces generalizing offset with
  | nil => exact Nat.le_refl _
  | cons piece pieces ih =>
    have htrim : (trimReturns piece).length ≤ piece.length :=
      (List.rdropWhile_prefix _ _).length_le
    have hpiece := length_lineChunks_le (trimReturns piece)
    have hrest := ih (offset + piece.length)
    rw [pieceFragments, List.length_append, List.length_map, List.flatten_cons, List.length_append]
    omega

/-! ## Lines of the fallback -/

theorem exists_prefix_of_findFrom {r : Regex} {atBegin : Bool} {s : Text} {m : Regex.Match}
    (h : r.findFrom atBegin s = some m) : ∃ x t, m ∈ r.prefixes x t := by
  induction s generalizing atBegin with
  | nil =>
    rw [Regex.findFrom] at h
    cases hhead : (r.prefixes atBegin []).head? with
    | none => rw [hhead] at h; cases h
    | some first =>
      rw [hhead] at h
      cases h
      exact ⟨_, _, List.mem_of_mem_head? hhead⟩
  | cons c s ih =>
    rw [Regex.findFrom] at h
    cases hhead : (r.prefixes atBegin (c :: s)).head? with
    | none =>
      rw [hhead] at h
      exact ih h
    | some first =>
      rw [hhead] at h
      cases h
      exact ⟨_, _, List.mem_of_mem_head? hhead⟩

section

variable {host : ImeHost}

theorem simpleTsRe_group {s : Text} {caps : Regex.Match}
    (h : (simpleTsRe host).captures s = some caps) : (caps.group 1).isSome = true := by
  obtain ⟨x, t, hm⟩ := exists_prefix_of_findFrom h
  obtain ⟨first, -, hm⟩ := List.mem_flatMap.mp hm
  obtain ⟨rest, hrest, rfl⟩ := List.mem_map.mp hm
  obtain ⟨second, hsecond, hrest⟩ := List.mem_flatMap.mp hrest
  obtain ⟨third, -, rfl⟩ := List.mem_map.mp hrest
  obtain ⟨inner, -, rfl⟩ := List.mem_map.mp hsecond
  rw [Regex.Match.group, Regex.Match.before, Regex.Match.before, List.lookup_append,
    List.lookup_append, List.lookup_cons_self, Option.isSome_or, Option.isSome_or]
  rw [Option.isSome_some, Bool.or_true, Bool.true_or]

theorem le_lineNumber_of_mem (ls : List Text) (lineNumber : Nat) :
    ∀ entry ∈ fallbackEntries host lineNumber ls, lineNumber ≤ entry.line.lineNumber := by
  induction ls generalizing lineNumber with
  | nil =>
    intro entry h
    cases h
  | cons line ls ih =>
    intro entry h
    rcases List.mem_append.mp h with h | h
    · refine Nat.le_of_eq ?_
      rw [fallbackLine] at h
      split_ifs at h
      · cases h
      · obtain ⟨chunk, -, rfl⟩ := List.mem_map.mp h
        rfl
      · cases hcaps : (simpleTsRe host).captures (trim line) with
        | some caps =>
          rw [hcaps] at h
          rw [List.mem_singleton.mp h]
          rfl
        | none =>
          rw [hcaps] at h
          rw [List.mem_singleton.mp h]
          rfl
    · exact Nat.le_of_succ_le (ih (lineNumber + 1) entry h)

end

/-! ## Lines that are read alike -/

section

variable (host : ImeHost)

/-- The fragments of a line are what the line gives by itself. -/
def readAlike (line : Text) : Bool :=
  if maxImeRecordBytes ≤ byteLen line then true
  else if trim line = [] then trimReturns line == []
  else line.getLast? != some '\r' && !(simpleTsRe host).isMatch (trim line)

/-- The lines of the first fragments are read alike; of a line on which the record begins
the fragments are those of the whole line. -/
def leadAlike (last whole : Text) : Nat → List Text → Bool
  | limit, [] => limit == 0 || (decide (maxImeRecordBytes ≤ byteLen whole) &&
      (lineChunks (trimReturns last)).take limit == (lineChunks (trimReturns whole)).take limit)
  | limit, line :: ls => limit == 0 || (readAlike host line &&
      leadAlike last whole (limit - (lineChunks (trimReturns line)).length) ls)

end

def ImeLine.view (line : ImeLine) : Text × Option Text × Nat × Option Text × Option Nat :=
  (line.message, line.timestamp, line.lineNumber, line.component, line.thread)

def ParsedImeRecord.view (record : ParsedImeRecord) :
    Text × Option Text × Nat × Option Text × Option Nat :=
  record.line.view

section

variable {host : ImeHost}

theorem trimReturns_of_getLast? {line : Text} (hfeed : '\n' ∉ line)
    (h : line.getLast? ≠ some '\r') : trimReturns line = line := by
  rcases List.eq_nil_or_concat line with rfl | ⟨init, c, rfl⟩
  · rfl
  · rw [List.concat_eq_append] at hfeed h ⊢
    rw [List.getLast?_concat, Ne, Option.some_inj] at h
    have hc : c ≠ '\n' := fun hc => hfeed (by rw [hc]; exact List.mem_concat_self)
    exact List.rdropWhile_concat_neg _ _ _ (by simp [h, hc])

theorem byteLen_prefix_le {a b : Text} (h : a <+: b) : byteLen a ≤ byteLen b := by
  obtain ⟨rest, rfl⟩ := h
  rw [byteLen_append]
  exact Nat.le_add_right _ _

theorem trimReturns_isPrefix (line : Text) : trimReturns line <+: line :=
  List.rdropWhile_prefix _ _

theorem lineChunks_trimReturns {line : Text} (hne : trimReturns line ≠ [])
    (h : byteLen line < maxImeRecordBytes) :
    lineChunks (trimReturns line) = [trimReturns line] :=
  lineChunks_of_lt hne (Nat.lt_of_le_of_lt (byteLen_prefix_le (trimReturns_isPrefix line)) h)

theorem trimReturns_ne_nil {line : Text} (h : trim line ≠ []) : trimReturns line ≠ [] := by
  refine fun hnil => h ((trim_nil_iff line).mpr (List.all_eq_true.mpr fun c hc => ?_))
  have hreturn := List.rdropWhile_eq_nil_iff.mp hnil c hc
  rw [Bool.or_eq_true, beq_iff_eq, beq_iff_eq] at hreturn
  rcases hreturn with rfl | rfl <;> rfl

theorem ne_trimReturns {line : Text} (h : line.getLast? = some '\r') : line ≠ trimReturns line := by
  intro hsame
  have hdrop := List.dropLast_append_getLast? '\r' h
  have hlength := congrArg List.length hsame
  rw [← hdrop, trimReturns_concat rfl, List.length_append, List.length_singleton] at hlength
  have hle := (trimReturns_isPrefix line.dropLast).length_le
  omega

theorem fallbackLine_of_readAlike {line : Text} (hfeed : '\n' ∉ line)
    (h : readAlike host line = true) (lineNumber : Nat) :
    fallbackLine host lineNumber line =
      (lineChunks (trimReturns line)).map (fragment lineNumber) := by
  rw [readAlike] at h
  rw [fallbackLine]
  split_ifs at h with hlong hblank
  · rw [if_neg fun hshort => absurd hlong (Nat.not_le_of_lt hshort.2), if_pos hlong]
  · rw [if_pos ⟨hblank, Nat.lt_of_not_le hlong⟩, eq_of_beq h]
    rfl
  · rw [Bool.and_eq_true, bne_iff_ne, Bool.not_eq_true', Regex.isMatch,
      Option.isSome_eq_false_iff, Option.isNone_iff_eq_none] at h
    have hne : line ≠ [] := fun hnil => hblank (by rw [hnil]; rfl)
    have htrim := trimReturns_of_getLast? hfeed h.1
    rw [if_neg fun hshort => hblank hshort.1, if_neg hlong, h.2, htrim,
      lineChunks_of_lt hne (Nat.lt_of_not_le hlong)]
    rfl

theorem fallbackLine_of_not_blank {line : Text} (hblank : trim line ≠ [])
    (hshort : byteLen line < maxImeRecordBytes) (lineNumber : Nat) :
    ∃ entry, fallbackLine host lineNumber line = [entry] ∧
      (entry.line.timestamp.isSome = true ∨
        entry = fragment lineNumber line ∧ (simpleTsRe host).captures (trim line) = none) := by
  rw [fallbackLine, if_neg fun h => hblank h.1, if_neg (Nat.not_le_of_lt hshort)]
  cases hcaps : (simpleTsRe host).captures (trim line) with
  | some caps => exact ⟨_, rfl, .inl (simpleTsRe_group hcaps)⟩
  | none => exact ⟨_, rfl, .inr ⟨rfl, rfl⟩⟩

theorem of_view_fragment {entry : ParsedImeRecord} {lineNumber : Nat} {chunk : Text}
    (h : entry.view = (fragment lineNumber chunk).view) :
    entry.line.message = chunk ∧ entry.line.timestamp = none ∧
      entry.line.lineNumber = lineNumber := by
  obtain ⟨hmessage, hrest⟩ := Prod.mk.inj h
  obtain ⟨htimestamp, hrest⟩ := Prod.mk.inj hrest
  exact ⟨hmessage, htimestamp, (Prod.mk.inj hrest).1⟩

theorem view_fragment_injective (lineNumber : Nat) :
    Function.Injective fun chunk => (fragment lineNumber chunk).view := fun _ _ h =>
  (Prod.mk.inj h).1

/-- A line that is not read alike has a first fragment, and what there is by lines does
not begin with it. -/
theorem head_ne_of_not_readAlike {line : Text} (h : readAlike host line = false) (lineNumber : Nat)
    (ls : List Text) :
    ∃ chunk, lineChunks (trimReturns line) = [chunk] ∧
      ∀ entry ∈ (fallbackEntries host lineNumber (line :: ls)).head?,
        entry.view ≠ (fragment lineNumber chunk).view := by
  rw [readAlike] at h
  split_ifs at h with hlong hblank
  · -- a blank line is a fragment, and nothing by itself
    have hne : trimReturns line ≠ [] := fun hnil => by rw [hnil] at h; cases h
    refine ⟨_, lineChunks_trimReturns hne (Nat.lt_of_not_le hlong), fun entry hentry hview => ?_⟩
    have hnil : fallbackLine host lineNumber line = [] :=
      if_pos ⟨hblank, Nat.lt_of_not_le hlong⟩
    rw [fallbackEntries, hnil, List.nil_append] at hentry
    have hle := le_lineNumber_of_mem ls _ entry (List.mem_of_mem_head? hentry)
    have hnumber := (of_view_fragment hview).2.2
    omega
  · have hne := trimReturns_ne_nil hblank
    refine ⟨_, lineChunks_trimReturns hne (Nat.lt_of_not_le hlong), fun entry hentry hview => ?_⟩
    obtain ⟨first, hfirst, hkind⟩ :=
      @fallbackLine_of_not_blank host line hblank (Nat.lt_of_not_le hlong) lineNumber
    rw [fallbackEntries, hfirst] at hentry
    obtain rfl := Option.some.inj hentry
    rcases hkind with htimestamp | ⟨rfl, hnone⟩
    · rw [(of_view_fragment hview).2.1] at htimestamp
      cases htimestamp
    · -- a carriage return at the end is kept by the line alone
      have hsame : line = trimReturns line := (of_view_fragment hview).1
      rw [Regex.isMatch, hnone, Option.isSome_none, Bool.not_false, Bool.and_true,
        bne_eq_false_iff_eq] at h
      exact ne_trimReturns h hsame

theorem prefix_trimReturns {x : Text} (hx : x.getLast? = some '[') (w : Text) :
    x <+: trimReturns (x ++ w) := by
  induction w using List.reverseRecOn with
  | nil =>
    have hkeeps : trimReturns x = x := by
      rw [← List.dropLast_append_getLast? '[' hx]
      exact List.rdropWhile_concat_neg _ _ _ (by decide)
    rw [List.append_nil, hkeeps]
  | append_singleton w c ih =>
    rw [← List.append_assoc]
    by_cases hc : (c == '\r' || c == '\n') = true
    · rw [trimReturns_concat hc]
      exact ih
    · have hkeeps : trimReturns (x ++ w ++ [c]) = x ++ w ++ [c] :=
        List.rdropWhile_concat_neg _ _ _ hc
      rw [hkeeps, List.append_assoc]
      exact List.prefix_append _ _

theorem take_append_eq_iff {α : Type} (x a b : List α) (k : Nat) :
    (x ++ a).take k = (x ++ b).take k ↔
      a.take (k - x.length) = b.take (k - x.length) := by
  rw [List.take_append, List.take_append, List.append_right_inj]

/-- The line on which a record begins. -/
structure Opens (last whole : Text) : Prop where
  begins : last ++ recordStart <+: whole
  feed : '\n' ∉ whole

namespace Opens

variable {last whole : Text}

theorem trim_ne_nil (h : Opens last whole) : trim whole ≠ [] := by
  intro hnil
  have hblank := List.all_eq_true.mp ((trim_nil_iff whole).mp hnil) '<'
    (h.begins.subset (List.mem_append_right _ List.mem_cons_self))
  exact absurd hblank (by decide)

theorem trimReturns_prefix (h : Opens last whole) : last ++ recordStart <+: trimReturns whole := by
  obtain ⟨rest, rfl⟩ := h.begins
  refine prefix_trimReturns ?_ rest
  rw [List.getLast?_append]
  rfl

theorem length_lt (h : Opens last whole) :
    (trimReturns last).length < (trimReturns whole).length := by
  have hprefix := h.trimReturns_prefix.length_le
  have hlast := (trimReturns_isPrefix last).length_le
  have hstart : 0 < recordStart.length := by decide
  rw [List.length_append] at hprefix
  omega

theorem fallbackLine_ne_nil (h : Opens last whole) (lineNumber : Nat) :
    fallbackLine host lineNumber whole ≠ [] := by
  by_cases hlong : maxImeRecordBytes ≤ byteLen whole
  · rw [fallbackLine, if_neg fun hshort => h.trim_ne_nil hshort.1, if_pos hlong, Ne,
      List.map_eq_nil_iff, lineChunks_eq_nil]
    exact trimReturns_ne_nil h.trim_ne_nil
  · obtain ⟨entry, hentry, -⟩ := @fallbackLine_of_not_blank host whole h.trim_ne_nil
      (Nat.lt_of_not_le hlong) lineNumber
    rw [hentry]
    exact List.cons_ne_nil _ _

theorem fallbackEntries_pos (h : Opens last whole) (ls more : List Text) (lineNumber : Nat) :
    0 < (fallbackEntries host lineNumber (ls ++ whole :: more)).length := by
  induction ls generalizing lineNumber with
  | nil =>
    rw [List.nil_append, fallbackEntries, List.length_append]
    exact Nat.add_pos_left (List.length_pos_iff.mpr (h.fallbackLine_ne_nil lineNumber)) _
  | cons line ls ih =>
    rw [List.cons_append, fallbackEntries, List.length_append]
    exact Nat.add_pos_right _ (ih (lineNumber + 1))

/-- The chunks of the line are as many as were taken of the part before the record, and
one more at least. -/
theorem lt_length_lineChunks (h : Opens last whole) {limit : Nat}
    (htake : (lineChunks (trimReturns last)).take limit =
      (lineChunks (trimReturns whole)).take limit) :
    limit < (lineChunks (trimReturns whole)).length := by
  by_contra hle
  have hall : (lineChunks (trimReturns whole)).take limit = lineChunks (trimReturns whole) :=
    List.take_of_length_le (Nat.le_of_not_lt hle)
  have hprefix := (List.take_prefix limit (lineChunks (trimReturns last))).flatten
  rw [htake, hall, lineChunks_flatten, lineChunks_flatten] at hprefix
  exact absurd hprefix.length_le (Nat.not_le_of_lt h.length_lt)

theorem take_iff_of_long (h : Opens last whole) (hlong : maxImeRecordBytes ≤ byteLen whole)
    {limit : Nat} (hlimit : limit ≤ (lineChunks (trimReturns last)).length) (lineNumber : Nat)
    (more : List Text) :
    (lineChunks (trimReturns last)).take limit = (lineChunks (trimReturns whole)).take limit ↔
      ((fallbackEntries host lineNumber (whole :: more)).map ParsedImeRecord.view).take limit =
        ((lineFragments last lineNumber []).map ParsedImeRecord.view).take limit ∧
      limit < (fallbackEntries host lineNumber (whole :: more)).length := by
  have hline : fallbackLine host lineNumber whole =
      (lineChunks (trimReturns whole)).map (fragment lineNumber) := by
    rw [fallbackLine, if_neg fun hshort => h.trim_ne_nil hshort.1, if_pos hlong]
  rw [fallbackEntries, hline, lineFragments, List.map_append, List.map_map, List.map_map,
    List.length_append, List.length_map]
  constructor
  · intro htake
    have hlt := h.lt_length_lineChunks htake
    refine ⟨?_, Nat.lt_add_right _ hlt⟩
    rw [List.take_append_of_le_length (by rw [List.length_map]; exact hlt.le), ← List.map_take,
      ← List.map_take, htake]
  · rintro ⟨htake, -⟩
    by_cases hle : limit ≤ (lineChunks (trimReturns whole)).length
    · rw [List.take_append_of_le_length (by rw [List.length_map]; exact hle), ← List.map_take,
        ← List.map_take] at htake
      exact ((view_fragment_injective lineNumber).list_map htake).symm
    · -- past the chunks come entries of later lines
      have hlt : (lineChunks (trimReturns whole)).length < limit := Nat.lt_of_not_le hle
      have hat := congrArg (fun entries => entries[(lineChunks (trimReturns whole)).length]?) htake
      rw [List.getElem?_take_of_lt hlt, List.getElem?_take_of_lt hlt,
        List.getElem?_append_right (by rw [List.length_map]), List.length_map, Nat.sub_self,
        List.getElem?_map, List.getElem?_map, List.getElem?_eq_getElem (Nat.lt_of_lt_of_le hlt hlimit)]
        at hat
      obtain ⟨entry, hentry, hview⟩ := Option.map_eq_some_iff.mp hat
      have hlater := le_lineNumber_of_mem more _ entry (List.mem_of_getElem? hentry)
      have hnumber := (of_view_fragment hview).2.2
      omega

theorem head_ne_of_short (h : Opens last whole) (hshort : byteLen whole < maxImeRecordBytes)
    (hlast : trimReturns last ≠ []) (lineNumber : Nat) (more : List Text) :
    ∃ chunk, lineChunks (trimReturns last) = [chunk] ∧
      ∀ entry ∈ (fallbackEntries host lineNumber (whole :: more)).head?,
        entry.view ≠ (fragment lineNumber chunk).view := by
  have hbytes : byteLen last < maxImeRecordBytes :=
    Nat.lt_of_le_of_lt (byteLen_prefix_le ((List.prefix_append _ _).trans h.begins)) hshort
  refine ⟨_, lineChunks_trimReturns hlast hbytes, fun entry hentry hview => ?_⟩
  obtain ⟨first, hfirst, hkind⟩ :=
    @fallbackLine_of_not_blank host whole h.trim_ne_nil hshort lineNumber
  rw [fallbackEntries, hfirst] at hentry
  obtain rfl := Option.some.inj hentry
  rcases hkind with htimestamp | ⟨rfl, -⟩
  · rw [(of_view_fragment hview).2.1] at htimestamp
    cases htimestamp
  · have hsame : whole = trimReturns last := (of_view_fragment hview).1
    have hle := (trimReturns_isPrefix whole).length_le
    have hlt := h.length_lt
    rw [← hsame] at hlt
    omega

end Opens

theorem take_ne_of_head {entries : List ParsedImeRecord} {lineNumber limit : Nat} {chunk : Text}
    (h : ∀ entry ∈ entries.head?, entry.view ≠ (fragment lineNumber chunk).view)
    (hlimit : limit ≠ 0) (rest : List ParsedImeRecord) :
    (entries.map ParsedImeRecord.view).take limit ≠
      (([chunk].map (fragment lineNumber) ++ rest).map ParsedImeRecord.view).take limit := by
  obtain ⟨limit, rfl⟩ := Nat.exists_eq_succ_of_ne_zero hlimit
  cases entries with
  | nil => exact (List.cons_ne_nil _ _).symm
  | cons entry entries => exact fun heq => h entry rfl (List.cons.inj heq).1

/-- What there is by lines begins with the fragments and goes on after them exactly when
the lines of the fragments are read alike. -/
theorem leadAlike_iff {last whole : Text} (h : Opens last whole) {ls : List Text}
    (hls : ∀ line ∈ ls, '\n' ∉ line) (more : List Text) (lineNumber : Nat) {limit : Nat}
    (hlimit : limit ≤ (lineFragments last lineNumber ls).length) :
    leadAlike host last whole limit ls = true ↔
      ((fallbackEntries host lineNumber (ls ++ whole :: more)).map ParsedImeRecord.view).take limit =
        ((lineFragments last lineNumber ls).map ParsedImeRecord.view).take limit ∧
      limit < (fallbackEntries host lineNumber (ls ++ whole :: more)).length := by
  have hnone : ∀ ls lineNumber, leadAlike host last whole 0 ls = true ∧
      0 < (fallbackEntries host lineNumber (ls ++ whole :: more)).length := fun ls lineNumber =>
    ⟨by cases ls <;> rfl, h.fallbackEntries_pos ls more lineNumber⟩
  induction ls generalizing lineNumber limit with
  | nil =>
    rcases Nat.eq_zero_or_pos limit with rfl | hlimitPos
    · exact ⟨fun _ => ⟨rfl, (hnone [] lineNumber).2⟩, fun _ => rfl⟩
    have hzero : (limit == 0) = false := beq_eq_false_iff_ne.mpr hlimitPos.ne'
    rw [lineFragments, List.length_map] at hlimit
    rw [leadAlike, hzero, Bool.false_or, Bool.and_eq_true, decide_eq_true_eq, beq_iff_eq]
    by_cases hlong : maxImeRecordBytes ≤ byteLen whole
    · rw [and_iff_right hlong]
      exact h.take_iff_of_long hlong hlimit lineNumber more
    · refine ⟨fun hcond => absurd hcond.1 hlong, fun hcond => ?_⟩
      have hlast : trimReturns last ≠ [] := fun hnil => by
        rw [hnil] at hlimit
        exact absurd hlimit (Nat.not_le_of_lt hlimitPos)
      obtain ⟨chunk, hchunk, hne⟩ := @Opens.head_ne_of_short host last whole h
        (Nat.lt_of_not_le hlong) hlast lineNumber more
      refine absurd hcond.1 ?_
      have hdiffer := take_ne_of_head hne hlimitPos.ne' []
      rwa [List.append_nil, ← hchunk] at hdiffer
  | cons line ls ih =>
    rcases Nat.eq_zero_or_pos limit with rfl | hlimitPos
    · exact ⟨fun _ => ⟨rfl, (hnone (line :: ls) lineNumber).2⟩, fun _ => rfl⟩
    have hzero : (limit == 0) = false := beq_eq_false_iff_ne.mpr hlimitPos.ne'
    have hfeed := hls line List.mem_cons_self
    rw [leadAlike, hzero, Bool.false_or, Bool.and_eq_true]
    cases halike : readAlike host line with
    | false =>
      refine ⟨fun hcond => absurd hcond.1 Bool.false_ne_true, fun hcond => ?_⟩
      obtain ⟨chunk, hchunk, hne⟩ := head_ne_of_not_readAlike halike lineNumber (ls ++ whole :: more)
      refine absurd hcond.1 ?_
      rw [lineFragments, hchunk]
      exact take_ne_of_head hne hlimitPos.ne' _
    | true =>
      have hpos := (hnone ls (lineNumber + 1)).2
      rw [lineFragments, List.length_append, List.length_map] at hlimit
      have hrest := ih (fun other hother => hls other (List.mem_cons_of_mem _ hother))
        (lineNumber + 1) (show limit - (lineChunks (trimReturns line)).length ≤ _ by omega)
      rw [and_iff_right rfl]
      refine hrest.trans ?_
      rw [List.cons_append, fallbackEntries,
        fallbackLine_of_readAlike hfeed halike, lineFragments, List.map_append, List.map_append,
        take_append_eq_iff, List.length_map, List.length_map, List.length_append, List.length_map]
      refine and_congr_right fun _ => ?_
      omega

/-! ## Where a scan opens -/

theorem findText_eq_some {needle s gap found : Text} (h : findText needle s = some (gap, found)) :
    s = gap ++ found ∧ needle <+: found := by
  induction s generalizing gap with
  | nil => cases h
  | cons c s ih =>
    rw [findText] at h
    split_ifs at h with hprefix
    · cases h
      exact ⟨rfl, List.isPrefixOf_iff_prefix.mp hprefix⟩
    · obtain ⟨later, hlater, heq⟩ := Option.map_eq_some_iff.mp h
      cases heq
      obtain ⟨rfl, hfound⟩ := ih hlater
      exact ⟨rfl, hfound⟩

theorem opening_eq_some {fuel : Nat} {pending rest before record : Text}
    (h : opening host fuel pending rest = some (before, record)) :
    pending ++ rest = before ++ record ∧ recordStart <+: record := by
  induction fuel generalizing pending rest with
  | zero => cases h
  | succ fuel ih =>
    rw [opening] at h
    cases hfind : findText recordStart rest with
    | none => rw [hfind] at h; cases h
    | some found =>
      obtain ⟨gap, tail⟩ := found
      obtain ⟨rfl, hstart⟩ := findText_eq_some hfind
      rw [hfind] at h
      dsimp only at h
      cases hboundary : recordBoundary host tail with
      | interrupted next =>
        rw [hboundary] at h
        obtain ⟨heq, hrecord⟩ := ih h
        rw [List.append_assoc, List.append_assoc, List.take_append_drop] at heq
        exact ⟨heq, hrecord⟩
      | complete length =>
        rw [hboundary] at h
        cases h
        exact ⟨(List.append_assoc _ _ _).symm, hstart⟩
      | capped length => rw [hboundary] at h; cases h
      | incomplete => rw [hboundary] at h; cases h

theorem entriesFrom_of_opening {lineStarts : List Nat} {fuel : Nat} {cursor : ImeCursor}
    {before record : Text}
    (h : opening host fuel cursor.pending cursor.rest = some (before, record)) :
    segmentFragments lineStarts before cursor.offset <+: (entriesFrom host lineStarts fuel cursor).1 ∧
      (entriesFrom host lineStarts fuel cursor).2 = true := by
  induction fuel generalizing cursor with
  | zero => cases h
  | succ fuel ih =>
    rw [opening] at h
    rw [entriesFrom]
    cases hfind : findText recordStart cursor.rest with
    | none => rw [hfind] at h; cases h
    | some found =>
      obtain ⟨gap, tail⟩ := found
      rw [hfind] at h
      dsimp only at h ⊢
      cases hboundary : recordBoundary host tail with
      | interrupted next =>
        rw [hboundary] at h
        exact @ih { cursor with
          pending := cursor.pending ++ gap ++ tail.take next, rest := tail.drop next } h
      | complete length =>
        rw [hboundary] at h
        cases h
        exact ⟨List.prefix_append _ _, matchedAny_entriesFrom fuel rfl⟩
      | capped length => rw [hboundary] at h; cases h
      | incomplete => rw [hboundary] at h; cases h

theorem exists_opens {last record : Text} (hlast : '\n' ∉ last) (hrecord : recordStart <+: record) :
    ∃ whole more, lines (last ++ record) = whole :: more ∧ Opens last whole := by
  obtain ⟨rest, rfl⟩ := hrecord
  have hstart : '\n' ∉ last ++ recordStart := by
    rw [List.mem_append, not_or]
    exact ⟨hlast, by decide⟩
  have hgetLast : (last ++ recordStart).getLast? = some '[' := by
    rw [List.getLast?_append]
    rfl
  rw [← List.append_assoc]
  obtain ⟨whole, more, hlines, hbegins⟩ : ∃ whole more,
      lines (last ++ recordStart ++ rest) = whole :: more ∧ last ++ recordStart <+: whole := by
    by_cases hfeed : '\n' ∈ rest
    · obtain ⟨line, others, rfl, hline⟩ := List.eq_append_cons_of_mem hfeed
      have hnot : '\n' ∉ last ++ recordStart ++ line := by
        rw [List.mem_append, not_or]
        exact ⟨hstart, hline⟩
      refine ⟨stripCarriageReturn (last ++ recordStart ++ line), lines others, ?_, ?_⟩
      · rw [← List.append_assoc (last ++ recordStart), lines, completeLines, lastLine,
          terminated_newline hnot]
        rfl
      · -- the opener does not end in a carriage return
        rw [stripCarriageReturn]
        split_ifs with hreturn
        · rcases List.eq_nil_or_concat line with rfl | ⟨init, c, rfl⟩
          · rw [List.append_nil, hgetLast] at hreturn
            exact absurd hreturn (by decide)
          · rw [List.concat_eq_append, ← List.append_assoc, List.dropLast_concat]
            exact List.prefix_append _ _
        · exact List.prefix_append _ _
    · have hnot : '\n' ∉ last ++ recordStart ++ rest := by
        rw [List.mem_append, not_or]
        exact ⟨hstart, hfeed⟩
      refine ⟨last ++ recordStart ++ rest, [], ?_, List.prefix_append _ _⟩
      rw [lines, completeLines, lastLine, terminated_of_not_mem hnot]
      refine if_neg fun hnil => ?_
      have hempty := (List.append_eq_nil_iff.mp (List.append_eq_nil_iff.mp hnil).1).2
      exact absurd hempty (by decide)
  refine ⟨whole, more, hlines, hbegins, not_mem_lines (last ++ recordStart ++ rest) whole ?_⟩
  rw [hlines]
  exact List.mem_cons_self

end

/-! ## Bounded readings -/

/-- A bounded reading gives the first elements, and whether there are more. -/
def BoundsTo (limit : Nat) (whole : List ImeLine) (bounded : List ImeLine × Bool) : Prop :=
  bounded.1.map ImeLine.view = (whole.take limit).map ImeLine.view ∧
    bounded.2 = decide (limit < whole.length)

instance (limit : Nat) (whole : List ImeLine) (bounded : List ImeLine × Bool) :
    Decidable (BoundsTo limit whole bounded) :=
  inferInstanceAs (Decidable (_ ∧ _))

/-- Where the fragments before the first complete record are more than the limit, the
lines of the first ones are read alike. -/
def keepsFraming (host : ImeHost) (content : Text) (limit : Nat) : Bool :=
  match opening host content.length [] content with
  | none => true
  | some (before, record) =>
    decide ((segmentFragments (buildLineStarts content) before 0).length ≤ limit) ||
      leadAlike host (lastLine before) ((lines (lastLine before ++ record)).headD []) limit
        (completeLines before)

section

variable {host : ImeHost}

theorem boundsTo_take (entries : List ParsedImeRecord) (limit : Nat) :
    BoundsTo limit ((entries.take usizeMax).map fun entry => entry.line)
      ((((entries.take (min (limit + 1) usizeMax)).map fun entry => entry.line).take limit),
        decide (limit < ((entries.take (min (limit + 1) usizeMax)).map fun entry =>
          entry.line).length)) := by
  have hmin : min limit (min (limit + 1) usizeMax) = min limit usizeMax := by omega
  refine ⟨?_, ?_⟩
  · rw [← List.map_take, ← List.map_take, List.take_take, List.take_take, hmin]
  · refine decide_eq_decide.mpr ?_
    rw [List.length_map, List.length_map, List.length_take, List.length_take]
    omega

theorem splitInclusive_flatten (s : Text) : (splitInclusive s).flatten = s := by
  conv_rhs => rw [← terminated_flatten s]
  rw [splitInclusive, List.flatten_append]
  split_ifs with hnil
  · rw [hnil]
    rfl
  · rw [List.flatten_singleton]

theorem length_le_byteLen (s : Text) : s.length ≤ byteLen s := by
  refine le_of_eq_of_le (List.length_map Char.utf8Size).symm ?_
  refine List.length_le_sum_of_one_le _ fun n hn => ?_
  obtain ⟨c, -, rfl⟩ := List.mem_map.mp hn
  exact c.utf8Size_pos

theorem length_fragments_lt {content before record : Text} (hcontent : byteLen content < 2 ^ 63)
    (h : opening host content.length [] content = some (before, record)) :
    (segmentFragments (buildLineStarts content) before 0).length < usizeMax := by
  have heq := (opening_eq_some h).1
  rw [List.nil_append] at heq
  have hle := length_pieceFragments_le (buildLineStarts content) 0 (splitInclusive before)
  rw [splitInclusive_flatten] at hle
  have hchars : before.length ≤ byteLen content :=
    (length_le_byteLen before).trans (byteLen_prefix_le ⟨record, heq.symm⟩)
  have hmax : (2 : Nat) ^ 63 ≤ usizeMax := by decide
  rw [segmentFragments]
  omega

theorem stopsEarly_of_opening {content before record : Text}
    (h : opening host content.length [] content = some (before, record)) (maxEntries : Nat) :
    stopsEarly host maxEntries content =
      decide (maxEntries ≤ (segmentFragments (buildLineStarts content) before 0).length) := by
  rw [stopsEarly, h]
  rfl

theorem boundsTo_of_not_stopsEarly {content : Text} {limit : Nat}
    (hwhole : stopsEarly host usizeMax content = false)
    (hbounded : stopsEarly host (min (limit + 1) usizeMax) content = false) :
    BoundsTo limit (parseImeContent host content) (parseImeContentBounded host content limit) := by
  have hpos : 0 < min (limit + 1) usizeMax := Nat.lt_min.mpr ⟨Nat.succ_pos limit, by decide⟩
  rw [parseImeContent, parseImeContentBounded, parseImeRecords_entries (by decide),
    parseImeRecords_entries hpos]
  dsimp only
  rw [hwhole, hbounded]
  split_ifs
  · exact boundsTo_take _ limit
  · exact boundsTo_take _ limit

/-- Where the scan ends early, the lines are read instead of what begins with the
fragments. -/
theorem boundsTo_of_stopsEarly {entries fallback fragments : List ParsedImeRecord} {limit : Nat}
    ( hprefix : fragments <+: entries) (hmore : limit < fragments.length)
    (hfew : fragments.length < usizeMax) :
    BoundsTo limit ((entries.take usizeMax).map fun entry => entry.line)
      ((((fallback.take (limit + 1)).map fun entry => entry.line).take limit),
        decide (limit < ((fallback.take (limit + 1)).map fun entry => entry.line).length)) ↔
      (fallback.map ParsedImeRecord.view).take limit =
        (fragments.map ParsedImeRecord.view).take limit ∧ limit < fallback.length := by
  obtain ⟨rest, rfl⟩ := hprefix
  have hwhole : ((((fragments ++ rest).take usizeMax).map fun entry => entry.line).take limit).map
      ImeLine.view = (fragments.map ParsedImeRecord.view).take limit := by
    rw [← List.map_take, List.take_take, Nat.min_eq_left (by omega),
      List.take_append_of_le_length hmore.le, List.map_map, List.map_take]
    rfl
  have hbounded : (((fallback.take (limit + 1)).map fun entry => entry.line).take limit).map
      ImeLine.view = (fallback.map ParsedImeRecord.view).take limit := by
    rw [← List.map_take, List.take_take, Nat.min_eq_left (Nat.le_succ limit), List.map_map,
      List.map_take]
    rfl
  rw [BoundsTo, hwhole, hbounded, List.length_map, List.length_map, List.length_take,
    List.length_take, List.length_append, decide_eq_decide]
  refine and_congr_right fun _ => ?_
  omega

theorem bounded_prefix_iff (host : ImeHost) {content : Text} (hcontent : byteLen content < 2 ^ 63)
    (limit : Nat) :
    BoundsTo limit (parseImeContent host content) (parseImeContentBounded host content limit) ↔
      keepsFraming host content limit = true := by
  cases hopening : opening host content.length [] content with
  | none =>
    have hnever : ∀ maxEntries, stopsEarly host maxEntries content = false := fun maxEntries => by
      rw [stopsEarly, hopening]
      rfl
    rw [keepsFraming, hopening]
    exact iff_of_true (boundsTo_of_not_stopsEarly (hnever _) (hnever _)) rfl
  | some opened =>
    obtain ⟨before, record⟩ := opened
    have hfew := length_fragments_lt hcontent hopening
    have hwhole : stopsEarly host usizeMax content = false := by
      rw [stopsEarly_of_opening hopening]
      exact decide_eq_false (Nat.not_le_of_lt hfew)
    rw [keepsFraming, hopening]
    dsimp only
    by_cases hroom : (segmentFragments (buildLineStarts content) before 0).length ≤ limit
    · have hbounded : stopsEarly host (min (limit + 1) usizeMax) content = false := by
        rw [stopsEarly_of_opening hopening]
        exact decide_eq_false (by omega)
      rw [decide_eq_true hroom, Bool.true_or]
      exact iff_of_true (boundsTo_of_not_stopsEarly hwhole hbounded) rfl
    · have hmax : min (limit + 1) usizeMax = limit + 1 := Nat.min_eq_left (by omega)
      have hbounded : stopsEarly host (limit + 1) content = true := by
        rw [stopsEarly_of_opening hopening]
        exact decide_eq_true (by omega)
      obtain ⟨ hprefix, hmatched⟩ := @entriesFrom_of_opening host (buildLineStarts content)
        content.length { rest := content } before record hopening
      obtain ⟨heq, hrecord⟩ := opening_eq_some hopening
      rw [List.nil_append] at heq
      obtain ⟨line, more, hlines, hopens⟩ := exists_opens (not_mem_lastLine before) hrecord
      have hfragments := segmentFragments_eq before record
      rw [← heq] at hfragments
      have hfeed : ∀ line ∈ completeLines before, '\n' ∉ line := fun line hline =>
        not_mem_lines before line (List.mem_append_left _ hline)
      have hleft : limit ≤ (lineFragments (lastLine before) 1 (completeLines before)).length := by
        rw [← hfragments]
        exact Nat.le_of_not_le hroom
      have halike := @leadAlike_iff host _ _ hopens _ hfeed more 1 _ hleft
      have hrecords : (parseImeRecords host usizeMax content).entries = List.take usizeMax
          (entriesFrom host (buildLineStarts content) content.length { rest := content }).1 := by
        rw [parseImeRecords_entries (by decide)]
        exact if_pos (by rw [hmatched, hwhole]; rfl)
      have hfallback : (parseImeRecords host (limit + 1) content).entries =
          (fallbackEntries host 1 (lines content)).take (limit + 1) := by
        rw [parseImeRecords_entries (Nat.succ_pos limit)]
        exact if_neg (by rw [hbounded, Bool.not_true, Bool.and_false]; exact Bool.false_ne_true)
      rw [decide_eq_false hroom, Bool.false_or, hlines, List.headD_cons, halike, parseImeContent,
        parseImeContentBounded, hmax, hrecords, hfallback]
      rw [hfragments] at hprefix hroom hfew
      have hcontentLines : lines content = completeLines before ++ line :: more := by
        rw [heq, lines_append_lastLine, hlines]
      rw [hcontentLines]
      exact boundsTo_of_stopsEarly hprefix (Nat.lt_of_not_le hroom) hfew

end

/-- Readings of three fraction digits on a clock of universal time. -/
def universal : ImeHost :=
  { Host.ascii with
    localMinusUtcMinutesAt    := fun _ => some 0
    localMinusUtcMinutes      := 0
    fromLocalDatetime         := fun naive => some naive.utcMillis
    toRfc3339Millis           := fun millis => decimal millis.toNat
    parseFallbackTimestampUtc := fun value => (Host.readFixed (value.take 19)).map fun _ =>
      value.take 10 ++ 'T' :: value.drop 11 ++ ['Z'] }

/-- Two lines and a record, of which the first element is read. -/
theorem bounded_prefix_iff_lines :
    BoundsTo 1 (parseImeContent universal "a\nb\n<![LOG[x]LOG]!><>".toList)
      (parseImeContentBounded universal "a\nb\n<![LOG[x]LOG]!><>".toList 1) :=
  (bounded_prefix_iff universal (by decide +kernel) 1).mpr (by decide +kernel)

/-- Before the record stand lines that have timestamps. -/
theorem bounded_not_prefix :
    ¬ BoundsTo 1
      (parseImeContent universal
        "2024-01-01 00:00:00.000 a\n2024-01-01 00:00:00.000 b\n<![LOG[x]LOG]!><>".toList)
      (parseImeContentBounded universal
        "2024-01-01 00:00:00.000 a\n2024-01-01 00:00:00.000 b\n<![LOG[x]LOG]!><>".toList 1) := by
  decide +kernel

end Ime
end Parser
end CmTrace
