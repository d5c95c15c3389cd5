import CmTrace.Parser.CcmRecords
import CmTrace.Tail.Reader

/-!
# Configuration manager records in a followed file

The selection declares logical records, but a read publishes the lines it completes.
A record is found in the tail as in the whole file exactly when no read ends inside
it and its message has no line ending of two characters, of which the tail drops one.
-/

namespace CmTrace
namespace Tail

open Text Log CmTrace.Parser.Ccm
open Regex (Placed place_eq)

def body (lines : List Text) : Text := (lines.map fun line => line ++ ['\n']).flatten

theorem body_append (a b : List Text) : body (a ++ b) = body a ++ body b := by
  rw [body, List.map_append, List.flatten_append]
  rfl

theorem body_eq_join : ∀ {lines : List Text}, lines ≠ [] → body lines = join ['\n'] lines ++ ['\n']
  | [], h => absurd rfl h
  | [line], _ => by simp [body, join]
  | line :: next :: lines, _ => by
    have hrest := @body_eq_join (next :: lines) (List.cons_ne_nil _ _)
    rw [body, List.map_cons, List.flatten_cons, ← body, hrest, join]
    simp only [List.append_assoc]

theorem count_body {lines : List Text} (h : ∀ line ∈ lines, '\n' ∉ line) :
    (body lines).count '\n' = lines.length := by
  induction lines with
  | nil => rfl
  | cons line lines ih =>
    have hline : line.count '\n' = 0 := List.count_eq_zero_of_not_mem (h line (List.mem_cons_self ..))
    have hrest := ih fun l hl => h l (List.mem_cons_of_mem _ hl)
    rw [body, List.map_cons, List.flatten_cons, ← body, List.count_append, List.count_append, hrest,
      hline, List.length_cons]
    simp
    omega

def placeBatches : Nat → List (List Text) → List (Text × Nat)
  | _, [] => []
  | n, batch :: batches =>
    (ccmRe.place n (join ['\n'] batch)).map shownPlaced ++ placeBatches (n + batch.length) batches

def readEnds : Nat → List (List Text) → List Nat
  | _, [] => []
  | n, batch :: batches => (n + batch.length - 1) :: readEnds (n + batch.length) batches

theorem place_nil (n : Nat) : ccmRe.place n [] = [] := by
  rw [place_eq ccmRe_unanchored ccmRe_taking]
  rfl

def PlainMessage (p : Placed) : Prop := ¬ ['\r', '\n'] <:+: (p.group 1).getD []

/-- The match is found whole, with its message, by reads that end on the lines given. -/
def SurvivesReads (ends : List Nat) (p : Placed) : Prop :=
  PlainMessage p ∧ ∀ k ∈ ends, ¬ p.Crosses k

theorem dropReturns_eq_iff (s : Text) : dropReturns s = s ↔ ¬ ['\r', '\n'] <:+: s := by
  induction s with
  | nil => simp [dropReturns]
  | cons c s ih =>
    by_cases hcrlf : c = '\r' ∧ s.head? = some '\n'
    · obtain ⟨rfl, hs⟩ := hcrlf
      obtain ⟨s, rfl⟩ : ∃ t, s = '\n' :: t := List.head?_eq_some_iff.mp hs
      rw [dropReturns_crlf]
      exact ⟨fun h => absurd (List.cons.inj h).1 (by decide),
        fun h => absurd (List.prefix_append ['\r', '\n'] s).isInfix h⟩
    · rw [dropReturns_cons hcrlf, List.cons_inj_right, ih, List.infix_cons_iff]
      refine ⟨fun h h' => h'.elim (fun hpre => hcrlf ?_) h, fun h h' => h (.inr h')⟩
      obtain ⟨rfl, hs⟩ := List.cons_prefix_cons.mp hpre
      obtain ⟨rest, rfl⟩ := hs
      exact ⟨rfl, rfl⟩

theorem group_dropReturns (p : Placed) (n : Nat) :
    p.dropReturns.group n = (p.group n).map dropReturns := by
  rw [Placed.group, Placed.group, Placed.dropReturns]
  dsimp only
  induction p.groups with
  | nil => rfl
  | cons g groups ih =>
    rw [List.map_cons, List.lookup_cons, List.lookup_cons]
    cases n == g.1 with
    | true => rfl
    | false => exact ih

theorem shownPlaced_dropReturns (p : Placed) :
    shownPlaced p.dropReturns = (dropReturns (shownPlaced p).1, (shownPlaced p).2) := by
  rw [shownPlaced, shownPlaced, group_dropReturns]
  cases p.group 1 with
  | none => rfl
  | some _ => rfl

theorem shownPlaced_eq_iff (p : Placed) : shownPlaced p = shownPlaced p.dropReturns ↔ PlainMessage p := by
  rw [shownPlaced_dropReturns, PlainMessage, ← dropReturns_eq_iff]
  constructor
  · intro h
    exact (congrArg Prod.fst h).symm
  · intro h
    exact Prod.ext h.symm rfl

theorem map_shown_eq_iff (ps : List Placed) :
    ps.map shownPlaced = (ps.map Placed.dropReturns).map shownPlaced ↔ ∀ p ∈ ps, PlainMessage p := by
  rw [List.map_map, List.map_inj_left]
  exact forall₂_congr fun p _ => shownPlaced_eq_iff p

theorem placeBatches_lines (batches : List (List Text)) (n : Nat) :
    ∀ shown ∈ placeBatches n batches, n ≤ shown.2 := by
  induction batches generalizing n with
  | nil =>
    intro shown h
    cases h
  | cons batch batches ih =>
    intro shown h
    rcases List.mem_append.mp h with h | h
    · obtain ⟨p, hp, rfl⟩ := List.mem_map.mp h
      exact (Regex.place_lines ccmRe_unanchored ccmRe_taking n _ p hp).1
    · exact le_trans (Nat.le_add_right _ _) (ih (n + batch.length) shown h)

theorem readEnds_le (batches : List (List Text)) (n : Nat) : ∀ k ∈ readEnds n batches, n - 1 ≤ k := by
  induction batches generalizing n with
  | nil =>
    intro k h
    cases h
  | cons batch batches ih =>
    intro k h
    rcases List.mem_cons.mp h with rfl | h
    · omega
    · have := ih (n + batch.length) k h
      omega

theorem placeBatches_iff (batches : List (List Text)) (n : Nat) (hn : 0 < n)
    (hlines : ∀ batch ∈ batches, ∀ line ∈ batch, '\n' ∉ line) (ps : List Placed)
    (hps : ccmRe.place n (body batches.flatten) = ps.map Placed.dropReturns) :
    ps.map shownPlaced = placeBatches n batches ↔ ∀ p ∈ ps, SurvivesReads (readEnds n batches) p := by
  induction batches generalizing n ps with
  | nil =>
    rw [List.flatten_nil, show body [] = [] from rfl, place_nil] at hps
    rw [List.map_eq_nil_iff.mp hps.symm]
    exact ⟨fun _ p hp => (by cases hp), fun _ => rfl⟩
  | cons batch batches ih =>
    have hrest := fun ps => ih (n + batch.length) (by omega)
      (fun b hb => hlines b (List.mem_cons_of_mem _ hb)) ps
    have hbatch := hlines batch (List.mem_cons_self ..)
    have hfirst : ∀ p ∈ ps, n ≤ p.first := by
      intro p hp
      exact (Regex.place_lines ccmRe_unanchored ccmRe_taking n _ p.dropReturns
        (hps ▸ List.mem_map_of_mem hp)).1
    rw [List.flatten_cons, body_append] at hps
    by_cases hempty : batch = []
    · subst hempty
      rw [show body [] = [] from rfl, List.nil_append] at hps
      rw [placeBatches, show join ['\n'] [] = [] from rfl, place_nil, readEnds]
      refine (hrest ps hps).trans (forall₂_congr fun p hp => and_congr_right fun _ => ?_)
      rw [List.forall_mem_cons]
      refine ⟨fun h => ⟨fun hcross => ?_, h⟩, fun h => h.2⟩
      have hge := hfirst p hp
      have hle := hcross.1
      rw [List.length_nil] at hle
      omega
    · have hpos := List.length_pos_iff.mpr hempty
      have hbody := body_eq_join hempty
      have hcount : (join ['\n'] batch).count '\n' + 1 = batch.length := by
        have h := count_body hbatch
        rw [hbody, List.count_append] at h
        simpa using h
      rw [hbody, List.append_assoc, List.singleton_append] at hps
      rw [placeBatches, readEnds]
      rcases Regex.place_split ccmRe_unanchored ccmRe_taking ccmRe_solid n (join ['\n'] batch)
          (body batches.flatten) with hsplit | ⟨before, after, a, m, at', hsplit, hpiece, hcross, hhead, hout⟩
      · rw [hsplit, Nat.add_assoc, hcount] at hps
        obtain ⟨ps₁, ps₂, rfl, hps₁, hps₂⟩ := List.map_eq_append_iff.mp hps.symm
        -- no record of the read goes on after it, and none after it began in it
        have hinside : ∀ p ∈ ps₁, SurvivesReads
            ((n + batch.length - 1) :: readEnds (n + batch.length) batches) p ↔ PlainMessage p := by
          intro p hp
          have hlast : p.last ≤ n + (join ['\n'] batch).count '\n' :=
            (Regex.place_lines ccmRe_unanchored ccmRe_taking n _ p.dropReturns
              (hps₁ ▸ List.mem_map_of_mem hp)).2
          refine ⟨fun h => h.1, fun h => ⟨h, fun k hk hcross => ?_⟩⟩
          have hlt := hcross.2
          rcases List.mem_cons.mp hk with rfl | hk
          · omega
          · have hle := readEnds_le batches (n + batch.length) k hk
            omega
        have hafter : ∀ p ∈ ps₂, SurvivesReads
            ((n + batch.length - 1) :: readEnds (n + batch.length) batches) p ↔
              SurvivesReads (readEnds (n + batch.length) batches) p := by
          intro p hp
          have hge : n + batch.length ≤ p.first :=
            (Regex.place_lines ccmRe_unanchored ccmRe_taking _ _ p.dropReturns
              (hps₂ ▸ List.mem_map_of_mem hp)).1
          refine and_congr_right fun _ => ?_
          rw [List.forall_mem_cons]
          refine ⟨fun h => h.2, fun h => ⟨fun hcross => ?_, h⟩⟩
          have hle := hcross.1
          omega
        rw [← hps₁, List.map_append]
        simp only [List.forall_mem_append]
        rw [forall₂_congr hinside, forall₂_congr hafter, ← hrest ps₂ hps₂.symm, ← map_shown_eq_iff]
        constructor
        · intro h
          exact List.append_inj h (by simp)
        · rintro ⟨hleft, hright⟩
          rw [hleft, hright]
      · rw [hsplit] at hps
        obtain ⟨ps₁, rest, rfl, hps₁, hps₂⟩ := List.map_eq_append_iff.mp hps.symm
        obtain ⟨p, ps₂, rfl, hp, -⟩ := List.map_eq_cons_iff.mp hps₂
        have hpcross : p.Crosses (n + batch.length - 1) := by
          have hlines : p.Crosses (n + (join ['\n'] batch).count '\n') := by
            rw [← hp] at hcross
            exact hcross
          rwa [show n + batch.length - 1 = n + (join ['\n'] batch).count '\n' by omega]
        refine iff_of_false (fun h => ?_) fun h => ?_
        · -- what the tail has in the record's place is later, or has a longer message
          rw [hpiece, ← hps₁, List.map_append, List.map_append, List.append_assoc] at h
          have hplace := (List.append_inj h (by simp)).2
          rw [List.map_cons] at hplace
          rcases Regex.opened_rival single_ccmAttributes (by decide) ccmRe_unanchored ccmRe_taking
              hhead hout at' with hnone | ⟨q, others, v, v', hrival, -, hv, hv', hpre, hne⟩
          · rw [show ccmRe.place at' a = [] from hnone, List.map_nil, List.nil_append] at hplace
            have hge := placeBatches_lines batches (n + batch.length) (shownPlaced p)
              (hplace ▸ List.mem_cons_self ..)
            have hle := hpcross.1
            have hline : (shownPlaced p).2 = p.first := rfl
            omega
          · rw [show ccmRe.place at' a = q :: others from hrival, List.map_cons,
              List.cons_append] at hplace
            have hmessage := congrArg Prod.fst (List.cons.inj hplace).1
            have hdropped := congrArg (fun x => x.group 1) hp
            rw [group_dropReturns] at hdropped
            have hgroup : (Placed.at at' [] m).group 1 = some v := hv
            rw [hgroup, Option.map_eq_some_iff] at hdropped
            obtain ⟨raw, hraw, hrawv⟩ := hdropped
            rw [shownPlaced, shownPlaced, hraw, hv'] at hmessage
            obtain rfl : raw = v' := hmessage
            exact hne (hrawv.symm.trans (dropReturns_isPrefix (hrawv ▸ hpre)))
        · exact (h p (List.mem_append_right _ (List.mem_cons_self ..))).2 _ (List.mem_cons_self ..)
            hpcross

/-! ## The followed file -/

def recordView (entry : LogEntry) : LogFormat × Text × Nat :=
  (entry.format, entry.message, entry.lineNumber)

theorem ccmShown_view (entries : List LogEntry) :
    ccmShown entries = ((entries.map recordView).filter fun v => v.1 == .ccm).map Prod.snd := by
  rw [ccmShown, List.filter_map, List.map_map]
  rfl

theorem rebase_ccmShown (filePath : Text) (n : Nat) (hn : 0 < n) (batch : List Text) :
    ccmShown ((parseLinesJoined filePath batch).1.map (rebase n)) =
      (ccmRe.place n (join ['\n'] batch)).map shownPlaced := by
  have hshift := Regex.place_shift ccmRe_unanchored ccmRe_taking 1 (n - 1) (join ['\n'] batch)
  rw [show 1 + (n - 1) = n by omega] at hshift
  have hone := parseContentMultiline_shown (join ['\n'] batch) filePath
  have hrebase : ccmShown ((parseLinesJoined filePath batch).1.map (rebase n)) =
      (ccmShown (parseLinesJoined filePath batch).1).map fun v => (v.1, n + (v.2 - 1)) := by
    rw [ccmShown, ccmShown, List.filter_map, List.map_map, List.map_map]
    rfl
  rw [hrebase, show ccmShown (parseLinesJoined filePath batch).1 = _ from hone, hshift, List.map_map,
    List.map_map]
  refine List.map_congr_left fun p hp => ?_
  have hge := (Regex.place_lines ccmRe_unanchored ccmRe_taking 1 _ p hp).1
  refine Prod.ext rfl ?_
  show n + (p.first - 1) = p.first + (n - 1)
  omega

theorem batchEntries_shown (filePath : Text) (batches : List (List Text)) (n : Nat) (hn : 0 < n) :
    ccmShown (batchEntries (parseLinesJoined filePath) n batches) = placeBatches n batches := by
  induction batches generalizing n with
  | nil => rfl
  | cons batch batches ih =>
    rw [batchEntries, ccmShown_append, rebase_ccmShown filePath n hn, ih (n + batch.length) (by omega),
      placeBatches]

theorem readAll_shown (filePath : Text) (nextId : Nat) (chunks : List Text) :
    ccmShown (({ nextId := nextId, nextLine := 1 } : TailReader).readAll
      (parseLinesJoined filePath) chunks).entries = placeBatches 1 (batchesFrom [] chunks) := by
  have hid : ∀ entry id, recordView (entry.withId id) = recordView entry := fun _ _ => rfl
  have hnil : parseLinesJoined filePath [] = ([], 0) := rfl
  have hview := (readAll_view hid hnil chunks { nextId := nextId, nextLine := 1 }).1
  rw [ccmShown_view, hview, ← ccmShown_view]
  exact batchEntries_shown filePath _ 1 Nat.one_pos

theorem not_mem_batches (chunks : List Text) (fragment : Text) :
    ∀ batch ∈ batchesFrom fragment chunks, ∀ line ∈ batch, '\n' ∉ line := by
  induction chunks generalizing fragment with
  | nil =>
    intro batch h
    cases h
  | cons chunk chunks ih =>
    rw [batchesFrom, List.forall_mem_cons]
    refine ⟨fun line h hmem => ?_, ih _⟩
    obtain ⟨raw, hraw, rfl⟩ := List.mem_map.mp h
    refine not_mem_terminated (fragment ++ chunk) raw hraw ?_
    rw [stripCarriageReturn] at hmem
    split at hmem
    · exact List.mem_of_mem_dropLast hmem
    · exact hmem

theorem forall_readEnds (P : Nat → Prop) (chunks : List Text) (n : Nat) (fragment : Text) :
    (∀ k ∈ readEnds n (batchesFrom fragment chunks), P k) ↔
      ∀ i < chunks.length,
        P (n + (completeLines (fragment ++ (chunks.take (i + 1)).flatten)).length - 1) := by
  induction chunks generalizing n fragment with
  | nil => exact ⟨fun _ i hi => absurd hi (Nat.not_lt_zero i), fun _ k hk => (by cases hk)⟩
  | cons chunk chunks ih =>
    rw [batchesFrom, readEnds, List.forall_mem_cons, ih, List.length_cons, Nat.forall_lt_succ_left]
    have hlater : ∀ i, (completeLines (fragment ++ ((chunk :: chunks).take (i + 1 + 1)).flatten)).length =
        (completeLines (fragment ++ chunk)).length +
          (completeLines (lastLine (fragment ++ chunk) ++ (chunks.take (i + 1)).flatten)).length := by
      intro i
      rw [List.take_succ_cons, List.flatten_cons, ← List.append_assoc, completeLines_append,
        List.length_append]
    simp only [hlater, ← Nat.add_assoc]
    rw [show (chunk :: chunks).take (0 + 1) = [chunk] from rfl, List.flatten_singleton]

/-- A match is inside the reads exactly when it does not go on after what has been
read at any time. -/
theorem readEnds_iff (chunks : List Text) (p : Placed) (hp : 0 < p.first) :
    (∀ k ∈ readEnds 1 (batchesFrom [] chunks), ¬ p.Crosses k) ↔
      ∀ i, ¬ p.Crosses (completeLines (chunks.take i).flatten).length := by
  rw [forall_readEnds]
  constructor
  · intro h i
    rcases Nat.eq_zero_or_pos i with rfl | hi
    · intro hcross
      have hle := hcross.1
      rw [List.take_zero, List.flatten_nil, completeLines, show terminated [] = ([], []) from rfl,
        List.map_nil, List.length_nil] at hle
      omega
    · -- past the last read nothing more is read
      rcases Nat.eq_zero_or_pos chunks.length with hnil | hpos
      · rw [List.length_eq_zero_iff.mp hnil, List.take_nil, List.flatten_nil]
        intro hcross
        exact absurd hcross.1 (Nat.not_le.mpr hp)
      · have hread := h (min i chunks.length - 1) (by omega)
        rw [List.nil_append, show min i chunks.length - 1 + 1 = min i chunks.length by omega,
          ← List.take_eq_take_min, Nat.add_sub_cancel_left] at hread
        exact hread
  · intro h i _
    rw [List.nil_append, Nat.add_sub_cancel_left]
    exact h (i + 1)

/-- The tail has the records of the whole file exactly when no read ends inside one
of them and no message of theirs has a line ending of two characters. -/
theorem readAll_ccm_iff (filePath : Text) (nextId : Nat) (chunks : List Text)
    (h : Complete chunks.flatten) :
    ccmShown (({ nextId := nextId, nextLine := 1 } : TailReader).readAll
        (parseLinesJoined filePath) chunks).entries =
      ccmShown (parseContentMultiline chunks.flatten filePath).1 ↔
    ∀ p ∈ ccmRe.place 1 chunks.flatten, PlainMessage p ∧
      ∀ i, ¬ p.Crosses (completeLines (chunks.take i).flatten).length := by
  have hbody : body (batchesFrom [] chunks).flatten = dropReturns chunks.flatten := by
    rw [batchesFrom_flatten chunks [] List.not_mem_nil, List.nil_append, dropReturns_lines,
      show lastLine chunks.flatten = [] from h, List.append_nil]
    rfl
  have hplace := Regex.place_dropReturns ccmRe_unanchored ccmRe_taking ccmRe_solid ccmRe_stable 1
    chunks.flatten
  rw [readAll_shown, parseContentMultiline_shown, eq_comm,
    placeBatches_iff (batchesFrom [] chunks) 1 Nat.one_pos (not_mem_batches chunks [])
      (ccmRe.place 1 chunks.flatten) (hbody ▸ hplace)]
  refine forall₂_congr fun p hp => and_congr_right fun _ => ?_
  exact readEnds_iff chunks p
    (Regex.place_lines ccmRe_unanchored ccmRe_taking 1 _ p hp).1

def sampleRecord (message : String) : Text :=
  ("<![LOG[" ++ message ++ "]LOG]!><time=\"01:02:03.004+000\" date=\"01-02-2026\" component=\"c\" "
    ++ "context=\"\" type=\"1\" thread=\"1\" file=\"f\">\n").toList

/-- The lines of a record that come in one read are found in the tail. -/
theorem readAll_ccm_one_read :
    Complete [sampleRecord "a\nb"].flatten ∧
      (ccmShown (({ nextId := 0, nextLine := 1 } : TailReader).readAll
          (parseLinesJoined []) [sampleRecord "a\nb"]).entries =
        ccmShown (parseContentMultiline [sampleRecord "a\nb"].flatten []).1 ↔
      ∀ p ∈ ccmRe.place 1 [sampleRecord "a\nb"].flatten, PlainMessage p ∧
        ∀ i, ¬ p.Crosses (completeLines ([sampleRecord "a\nb"].take i).flatten).length) :=
  have h : Complete [sampleRecord "a\nb"].flatten := by decide +kernel
  ⟨h, readAll_ccm_iff [] 0 [sampleRecord "a\nb"] h⟩

/-- A read that ends inside a record leaves the tail without it. -/
theorem readAll_splits_record :
    let chunks := [(sampleRecord "a\nb").take 9, (sampleRecord "a\nb").drop 9]
    Complete chunks.flatten ∧
      ccmShown (parseContentMultiline chunks.flatten []).1 = [("a\nb".toList, 1)] ∧
      ccmShown (({ nextId := 0, nextLine := 1 } : TailReader).readAll
        (parseLinesJoined []) chunks).entries = [] := by
  decide +kernel

end Tail
end CmTrace
