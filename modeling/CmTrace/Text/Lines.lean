import CmTrace.Text.Basic

/-!
# Physical lines

A line ends at its line feed; a carriage return right before the line feed is
not part of it.  Text after the last line feed is a line of its own, carriage
returns included.
-/

namespace CmTrace
namespace Text

/-- The pieces that end in a line feed, without it, and what follows the last
of them. -/
def terminated : Text → List Text × Text
  | [] => ([], [])
  | c :: s =>
    if c = '\n' then ([] :: (terminated s).1, (terminated s).2)
    else match (terminated s).1 with
      | [] => ([], c :: (terminated s).2)
      | piece :: pieces => ((c :: piece) :: pieces, (terminated s).2)

def stripCarriageReturn (line : Text) : Text :=
  if line.getLast? = some '\r' then line.dropLast else line

def completeLines (s : Text) : List Text := (terminated s).1.map stripCarriageReturn

def lastLine (s : Text) : Text := (terminated s).2

def lines (s : Text) : List Text :=
  completeLines s ++ if lastLine s = [] then [] else [lastLine s]

theorem terminated_cons_of_ne {c : Char} (h : c ≠ '\n') (s : Text) :
    terminated (c :: s) = match (terminated s).1 with
      | [] => ([], c :: (terminated s).2)
      | piece :: pieces => ((c :: piece) :: pieces, (terminated s).2) := by
  rw [terminated, if_neg h]

theorem terminated_append (a b : Text) :
    terminated (a ++ b) =
      ((terminated a).1 ++ (terminated ((terminated a).2 ++ b)).1,
        (terminated ((terminated a).2 ++ b)).2) := by
  induction a with
  | nil => rfl
  | cons c a ih =>
    rw [List.cons_append]
    by_cases hc : c = '\n'
    · rw [terminated, if_pos hc, terminated, if_pos hc, ih]
      rfl
    · rw [terminated_cons_of_ne hc, terminated_cons_of_ne hc, ih]
      cases ha : (terminated a).1 with
      | nil =>
        rw [List.nil_append, List.cons_append, terminated_cons_of_ne hc, List.nil_append]
      | cons piece pieces => rfl

theorem completeLines_append (a b : Text) :
    completeLines (a ++ b) = completeLines a ++ completeLines (lastLine a ++ b) := by
  rw [completeLines, terminated_append, List.map_append]
  rfl

theorem lastLine_append (a b : Text) : lastLine (a ++ b) = lastLine (lastLine a ++ b) := by
  rw [lastLine, terminated_append]
  rfl

theorem terminated_of_not_mem : ∀ {s : Text}, '\n' ∉ s → terminated s = ([], s)
  | [], _ => rfl
  | c :: s, h => by
    rw [List.mem_cons, not_or] at h
    rw [terminated_cons_of_ne (Ne.symm h.1), terminated_of_not_mem h.2]

theorem terminated_newline : ∀ {s : Text}, '\n' ∉ s → ∀ rest,
    terminated (s ++ '\n' :: rest) = (s :: (terminated rest).1, (terminated rest).2)
  | [], _, rest => by rw [List.nil_append, terminated, if_pos rfl]
  | c :: s, h, rest => by
    rw [List.mem_cons, not_or] at h
    rw [List.cons_append, terminated_cons_of_ne (Ne.symm h.1), terminated_newline h.2]

theorem not_mem_lastLine (s : Text) : '\n' ∉ lastLine s := by
  induction s with
  | nil => exact List.not_mem_nil
  | cons c s ih =>
    rw [lastLine]
    by_cases hc : c = '\n'
    · rw [terminated, if_pos hc]
      exact ih
    · rw [terminated_cons_of_ne hc]
      cases hs : (terminated s).1 with
      | nil => simpa using ⟨Ne.symm hc, ih⟩
      | cons piece pieces => exact ih

theorem not_mem_terminated (s : Text) : ∀ line ∈ (terminated s).1, '\n' ∉ line := by
  induction s with
  | nil =>
    intro line h
    cases h
  | cons c s ih =>
    by_cases hc : c = '\n'
    · subst hc
      intro line h
      rcases List.mem_cons.mp h with rfl | h
      · exact List.not_mem_nil
      · exact ih line h
    · rw [terminated_cons_of_ne hc]
      cases hs : terminated s with
      | mk done rest =>
        rw [hs] at ih
        cases done with
        | nil =>
          intro line h
          cases h
        | cons first others =>
          intro line h
          rcases List.mem_cons.mp h with rfl | h
          · rw [List.mem_cons, not_or]
            exact ⟨Ne.symm hc, ih first (List.mem_cons_self ..)⟩
          · exact ih line (List.mem_cons_of_mem _ h)

theorem not_mem_lines (s : Text) : ∀ line ∈ lines s, '\n' ∉ line := by
  intro line hline
  rcases List.mem_append.mp hline with hline | hline
  · obtain ⟨piece, hpiece, rfl⟩ := List.mem_map.mp hline
    have hnot := not_mem_terminated s piece hpiece
    rw [stripCarriageReturn]
    split_ifs
    · exact fun hmem => hnot (List.mem_of_mem_dropLast hmem)
    · exact hnot
  · split_ifs at hline
    · cases hline
    · rw [List.mem_singleton.mp hline]
      exact not_mem_lastLine s

theorem terminated_flatten (s : Text) :
    ((terminated s).1.map (· ++ ['\n'])).flatten ++ lastLine s = s := by
  rw [lastLine]
  induction s with
  | nil => rfl
  | cons c s ih =>
    by_cases hc : c = '\n'
    · rw [terminated, if_pos hc, List.map_cons, List.flatten_cons, List.append_assoc, ih, hc]
      rfl
    · rw [terminated_cons_of_ne hc]
      cases hs : (terminated s).1 with
      | nil =>
        rw [hs] at ih
        exact congrArg (c :: ·) ih
      | cons piece pieces =>
        rw [hs] at ih
        exact congrArg (c :: ·) ih

theorem lines_append_lastLine (a b : Text) :
    lines (a ++ b) = completeLines a ++ lines (lastLine a ++ b) := by
  rw [lines, lines, completeLines_append, lastLine_append, List.append_assoc]

theorem getLast?_newline_iff (s : Text) (hne : s ≠ []) :
    s.getLast? = some '\n' ↔ lastLine s = [] := by
  obtain ⟨init, c, rfl⟩ := List.eq_nil_or_concat s |>.resolve_left hne
  rw [List.concat_eq_append, List.getLast?_concat, lastLine_append, Option.some_inj, lastLine]
  have hinit := not_mem_lastLine init
  constructor
  · rintro rfl
    rw [terminated_newline hinit]
    rfl
  · intro h
    by_contra hc
    rw [terminated_of_not_mem (by simp [hinit, Ne.symm hc])] at h
    simp at h

def Complete (s : Text) : Prop := lastLine s = []

instance (s : Text) : Decidable (Complete s) := inferInstanceAs (Decidable (lastLine s = []))

theorem lines_of_complete {s : Text} (h : Complete s) : lines s = completeLines s := by
  rw [lines, if_pos (show lastLine s = [] from h), List.append_nil]

theorem lines_append {a : Text} (h : Complete a) (b : Text) : lines (a ++ b) = lines a ++ lines b := by
  have hl : lastLine a = [] := h
  rw [lines_of_complete h, lines, lines, completeLines_append, lastLine_append, hl, List.nil_append,
    List.append_assoc]

end Text
end CmTrace
