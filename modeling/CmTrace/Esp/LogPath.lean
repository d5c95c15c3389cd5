import CmTrace.Esp.Texts

/-!
# Keys of installer logs

The key of a path is read from its components.  Respellings of a path that leave its
root alone keep the key.
-/

namespace CmTrace
namespace Esp

open Text

/-! ## Keys -/

/-- A path without the blanks and quotes around it. -/
def bare (path : Text) : Text := trimMatches quotes (trim path)

def backslashes (value : Text) : Text := value.map fun c => if c = '/' then '\\' else c

def spell (components : List Text) : Text := join ['\\'] components

def walk (depth : Nat) (components : List Text) : Option (List Text) :=
  components.foldlM (pushComponent depth) []

def keyOfPlain (value : Text) : Option Text :=
  (walk (minimumDepth value) (splitOn '\\' value)).bind fun parts =>
    if parts = [] then none
    else if isUnc value then some ("\\\\".toList ++ spell parts)
    else some (spell parts)

/-- The key of a path without blanks and quotes around it. -/
def keyOf (value : Text) : Option Text :=
  if backslashes value = [] ∨ (backslashes value).contains '\x00' then none
  else (stripLiteralMark (backslashes value)).bind keyOfPlain

theorem canonicalInstallerLogPath_eq (path : Text) :
    canonicalInstallerLogPath path = keyOf (bare path) := rfl

/-! ## Respellings -/

def IsComponent (component : Text) : Prop := '\\' ∉ component ∧ '/' ∉ component

def isTail (c : Char) : Bool := c == ' ' || c == '.'

/-- A component that is left with something when its tail is taken off. -/
structure IsName (name : Text) : Prop where
  component : IsComponent name
  named : name.rdropWhile isTail ≠ []
  nul : '\x00' ∉ name

/-- Two paths without marks that have the same root. -/
structure SameRoot (cs cs' : List Text) : Prop where
  components : ∀ c ∈ cs, IsComponent c
  components' : ∀ c ∈ cs', IsComponent c
  plain : stripLiteralMark (spell cs) = some (spell cs)
  plain' : stripLiteralMark (spell cs') = some (spell cs')
  unc : isUnc (spell cs) = isUnc (spell cs')
  depth : minimumDepth (spell cs) = minimumDepth (spell cs')

def OnDrive (value : Text) : Prop :=
  ∃ letter rest, isAsciiAlphabetic letter = true ∧ value = letter :: ':' :: rest

/-- One respelling of a path. -/
inductive Respelled : Text → Text → Prop
  | letterCase {v v' : Text} : toAsciiLowercase v = toAsciiLowercase v' → Respelled v v'
  | slashes (v : Text) : Respelled v (backslashes v)
  /-- A separator is doubled, or one more ends the path. -/
  | separator {xs ys : List Text} : SameRoot (xs ++ ys) (xs ++ [] :: ys) →
      Respelled (spell (xs ++ ys)) (spell (xs ++ [] :: ys))
  | dot {xs ys : List Text} : SameRoot (xs ++ ys) (xs ++ ['.'] :: ys) →
      Respelled (spell (xs ++ ys)) (spell (xs ++ ['.'] :: ys))
  /-- A name and the step back to where it stands, below the root. -/
  | parent {xs ys parts : List Text} {name : Text} : IsName name →
      walk (minimumDepth (spell (xs ++ ys))) xs = some parts →
      minimumDepth (spell (xs ++ ys)) ≤ parts.length →
      SameRoot (xs ++ ys) (xs ++ name :: ['.', '.'] :: ys) →
      Respelled (spell (xs ++ ys)) (spell (xs ++ name :: ['.', '.'] :: ys))
  | ending {xs ys : List Text} {name tail : Text} : IsName name →
      (∀ c ∈ tail, isTail c = true) → SameRoot (xs ++ name :: ys) (xs ++ (name ++ tail) :: ys) →
      Respelled (spell (xs ++ name :: ys)) (spell (xs ++ (name ++ tail) :: ys))
  | driveMark {v : Text} : OnDrive v → Respelled v ("\\\\?\\".toList ++ v)
  | uncMark {v : Text} : stripLiteralMark (backslashes ("\\\\".toList ++ v)) =
      some (backslashes ("\\\\".toList ++ v)) →
      Respelled ("\\\\".toList ++ v) ("\\\\?\\UNC\\".toList ++ v)

/-- A path with backslashes from the root of a drive or from a server, with its mark or
without one. -/
inductive FromRoot : Text → Prop
  | drive {v : Text} : OnDrive v → FromRoot v
  | driveMark {v : Text} : OnDrive v → FromRoot ("\\\\?\\".toList ++ v)
  | unc {v : Text} : stripLiteralMark ("\\\\".toList ++ v) = some ("\\\\".toList ++ v) →
      FromRoot ("\\\\".toList ++ v)
  | uncMark {mark v : Text} : eqIgnoreAsciiCase mark "\\\\?\\UNC\\".toList = true →
      stripLiteralMark ("\\\\".toList ++ v) = some ("\\\\".toList ++ v) → FromRoot (mark ++ v)

def IsAbsolute (v : Text) : Prop := FromRoot (backslashes v)

/-! ## Spelling -/

theorem keyOf_eq (value : Text) :
    keyOf value = if '\x00' ∈ backslashes value then none
      else (stripLiteralMark (backslashes value)).bind keyOfPlain := by
  rw [keyOf]
  by_cases hnul : '\x00' ∈ backslashes value
  · rw [if_pos hnul, if_pos (.inr (List.contains_iff_mem.mpr hnul))]
  · by_cases hempty : backslashes value = []
    · rw [if_neg hnul, hempty, if_pos (.inl rfl)]
      rfl
    · rw [if_neg hnul, if_neg]
      rw [List.contains_iff_mem, not_or]
      exact ⟨hempty, hnul⟩

theorem backslashes_of_not_mem {value : Text} (h : '/' ∉ value) : backslashes value = value := by
  refine (List.map_congr_left fun c hc => ?_).trans (List.map_id value)
  exact if_neg fun heq : c = '/' => h (heq ▸ hc)

theorem backslashes_append (a b : Text) : backslashes (a ++ b) = backslashes a ++ backslashes b :=
  List.map_append

theorem not_mem_backslashes (value : Text) : '/' ∉ backslashes value := by
  intro h
  obtain ⟨c, _, hc⟩ := List.mem_map.mp h
  split_ifs at hc with heq
  · cases hc
  · exact heq hc

@[simp]
theorem backslashes_backslashes (value : Text) :
    backslashes (backslashes value) = backslashes value :=
  backslashes_of_not_mem (not_mem_backslashes value)

theorem spell_cons_cons (c next : Text) (cs : List Text) :
    spell (c :: next :: cs) = c ++ '\\' :: spell (next :: cs) := by
  rw [spell, join, List.append_assoc]
  rfl

theorem mem_spell {c : Char} {cs : List Text} (h : c ∈ spell cs) :
    c = '\\' ∨ ∃ component ∈ cs, c ∈ component := by
  induction cs with
  | nil => cases h
  | cons first cs ih =>
    cases cs with
    | nil => exact .inr ⟨first, List.mem_cons_self, h⟩
    | cons next cs =>
      rw [spell_cons_cons] at h
      rcases List.mem_append.mp h with h | h
      · exact .inr ⟨first, List.mem_cons_self, h⟩
      · rcases List.mem_cons.mp h with rfl | h
        · exact .inl rfl
        · rcases ih h with rfl | ⟨component, hmem, hc⟩
          · exact .inl rfl
          · exact .inr ⟨component, List.mem_cons_of_mem first hmem, hc⟩

theorem mem_spell_of_mem {c : Char} {component : Text} {cs : List Text} (h : component ∈ cs)
    (hc : c ∈ component) : c ∈ spell cs := by
  induction cs with
  | nil => cases h
  | cons first cs ih =>
    cases cs with
    | nil =>
      rw [List.mem_singleton] at h
      exact h ▸ hc
    | cons next cs =>
      rw [spell_cons_cons, List.mem_append, List.mem_cons]
      rcases List.mem_cons.mp h with rfl | h
      · exact .inl hc
      · exact .inr (.inr (ih h))

theorem backslashes_spell {cs : List Text} (h : ∀ c ∈ cs, IsComponent c) :
    backslashes (spell cs) = spell cs := by
  refine backslashes_of_not_mem fun hmem => ?_
  rcases mem_spell hmem with heq | ⟨component, hcomponent, hc⟩
  · cases heq
  · exact (h component hcomponent).2 hc

theorem walk_append (depth : Nat) (xs ys : List Text) :
    walk depth (xs ++ ys) =
      (walk depth xs).bind fun parts => ys.foldlM (pushComponent depth) parts :=
  List.foldlM_append

theorem pushComponent_nil (depth : Nat) (parts : List Text) :
    pushComponent depth parts [] = some parts := by
  rw [pushComponent, if_pos (.inl rfl)]

theorem pushComponent_dot (depth : Nat) (parts : List Text) :
    pushComponent depth parts ['.'] = some parts := by
  rw [pushComponent, if_pos (.inr rfl)]

theorem pushComponent_parent {depth : Nat} {parts : List Text} (h : depth < parts.length) :
    pushComponent depth parts ['.', '.'] = some parts.dropLast := by
  rw [pushComponent, if_neg (by decide), if_pos rfl, if_neg (Nat.not_le.mpr h)]

theorem pushComponent_name {name : Text} (h : name.rdropWhile isTail ≠ []) (depth : Nat)
    (parts : List Text) : pushComponent depth parts name =
      some (parts ++ [toAsciiLowercase (name.rdropWhile isTail)]) := by
  have hne : ∀ s : Text, s.rdropWhile isTail = [] → name ≠ s := fun s hs heq => h (heq ▸ hs)
  have hskip : ¬ (name = [] ∨ name = ['.']) :=
    not_or.mpr ⟨hne [] rfl, hne ['.'] rfl⟩
  rw [pushComponent, if_neg hskip, if_neg (hne ['.', '.'] rfl)]
  exact if_neg h

theorem walk_splitOn_spell {cs : List Text} (h : ∀ c ∈ cs, IsComponent c) (depth : Nat) :
    walk depth (splitOn '\\' (spell cs)) = walk depth cs := by
  cases cs with
  | nil =>
    show (pushComponent depth [] []).bind _ = _
    rw [pushComponent_nil]
    rfl
  | cons c cs =>
    rw [spell, splitOn_join (fun piece hpiece => (h piece hpiece).1) (List.cons_ne_nil c cs)]

/-! ## Respellings keep the key -/

theorem keyOf_spell {cs : List Text} (h : ∀ c ∈ cs, IsComponent c)
    (hplain : stripLiteralMark (spell cs) = some (spell cs)) :
    keyOf (spell cs) = if '\x00' ∈ spell cs then none else keyOfPlain (spell cs) := by
  rw [keyOf_eq, backslashes_spell h, hplain]
  rfl

theorem keyOf_sameRoot {cs cs' : List Text} (h : SameRoot cs cs')
    (hnul : '\x00' ∈ spell cs ↔ '\x00' ∈ spell cs')
    (hwalk : walk (minimumDepth (spell cs)) cs = walk (minimumDepth (spell cs)) cs') :
    keyOf (spell cs) = keyOf (spell cs') := by
  rw [keyOf_spell h.components h.plain, keyOf_spell h.components' h.plain', keyOfPlain, keyOfPlain,
    walk_splitOn_spell h.components, walk_splitOn_spell h.components', ← h.unc, ← h.depth, hwalk]
  exact if_congr hnul rfl rfl

theorem nul_mem_spell {cs : List Text} :
    '\x00' ∈ spell cs ↔ ∃ component ∈ cs, '\x00' ∈ component := by
  constructor
  · intro h
    rcases mem_spell h with heq | hmem
    · cases heq
    · exact hmem
  · rintro ⟨component, hmem, hc⟩
    exact mem_spell_of_mem hmem hc

theorem nul_mem_spell_between {xs mid ys : List Text} (h : ∀ c ∈ mid, '\x00' ∉ c) :
    '\x00' ∈ spell (xs ++ ys) ↔ '\x00' ∈ spell (xs ++ (mid ++ ys)) := by
  rw [nul_mem_spell, nul_mem_spell]
  constructor
  · rintro ⟨c, hc, hnul⟩
    refine ⟨c, ?_, hnul⟩
    rcases List.mem_append.mp hc with hc | hc
    · exact List.mem_append_left _ hc
    · exact List.mem_append_right _ (List.mem_append_right _ hc)
  · rintro ⟨c, hc, hnul⟩
    refine ⟨c, ?_, hnul⟩
    rcases List.mem_append.mp hc with hc | hc
    · exact List.mem_append_left _ hc
    · rcases List.mem_append.mp hc with hc | hc
      · exact absurd hnul (h c hc)
      · exact List.mem_append_right _ hc

theorem keyOf_skip {xs mid ys : List Text} (h : SameRoot (xs ++ ys) (xs ++ (mid ++ ys)))
    (hnul : ∀ c ∈ mid, '\x00' ∉ c)
    (hskip : ∀ parts, walk (minimumDepth (spell (xs ++ ys))) xs = some parts →
      mid.foldlM (pushComponent (minimumDepth (spell (xs ++ ys)))) parts = some parts) :
    keyOf (spell (xs ++ ys)) = keyOf (spell (xs ++ (mid ++ ys))) := by
  refine keyOf_sameRoot h (nul_mem_spell_between hnul) ?_
  rw [walk_append, walk_append]
  cases hparts : walk (minimumDepth (spell (xs ++ ys))) xs with
  | none => rfl
  | some parts =>
    rw [Option.bind_some, Option.bind_some, List.foldlM_append, hskip parts hparts]
    rfl

theorem rdropWhile_append_tail (name : Text) {tail : Text} (h : ∀ c ∈ tail, isTail c = true) :
    (name ++ tail).rdropWhile isTail = name.rdropWhile isTail := by
  rw [List.rdropWhile, List.reverse_append, List.dropWhile_append_of_pos, List.rdropWhile]
  exact fun c hc => h c (List.mem_reverse.mp hc)

theorem keyOf_ending {xs ys : List Text} {name tail : Text} (hname : IsName name)
    (htail : ∀ c ∈ tail, isTail c = true)
    (h : SameRoot (xs ++ name :: ys) (xs ++ (name ++ tail) :: ys)) :
    keyOf (spell (xs ++ name :: ys)) = keyOf (spell (xs ++ (name ++ tail) :: ys)) := by
  refine keyOf_sameRoot h ?_ ?_
  · have hnul : '\x00' ∉ name ++ tail := by
      rw [List.mem_append, not_or]
      exact ⟨hname.nul, fun hc => absurd (htail _ hc) (by decide)⟩
    have hone := @nul_mem_spell_between xs [name] ys fun c hc => by
      rw [List.mem_singleton.mp hc]
      exact hname.nul
    have hother := @nul_mem_spell_between xs [name ++ tail] ys fun c hc => by
      rw [List.mem_singleton.mp hc]
      exact hnul
    exact hone.symm.trans hother
  · have hnamed : (name ++ tail).rdropWhile isTail ≠ [] := by
      rw [rdropWhile_append_tail name htail]
      exact hname.named
    rw [walk_append, walk_append]
    refine Option.bind_congr fun parts _ => ?_
    rw [List.foldlM_cons, List.foldlM_cons, pushComponent_name hname.named,
      pushComponent_name hnamed, rdropWhile_append_tail name htail]

/-! ### Letter case -/

theorem toLower_eq_iff {c d : Char} (hd : d.isAlpha = false) : c.toLower = d ↔ c = d := by
  have hself : c.isAlpha = false → c.toLower = c := by
    intro hc
    rw [Char.isAlpha, Bool.or_eq_false_iff] at hc
    exact Char.toLower_eq_of_not_isUpper (Bool.eq_false_iff.mp hc.1)
  constructor
  · intro h
    have hc : c.isAlpha = false := by rw [← Char.isAlpha_toLower_eq_isAlpha, h, hd]
    rw [← hself hc, h]
  · rintro rfl
    exact hself hd

theorem toLower_beq {c d : Char} (hd : d.isAlpha = false) : (c.toLower == d) = (c == d) := by
  rw [Bool.eq_iff_iff, beq_iff_eq, beq_iff_eq, toLower_eq_iff hd]

theorem toLower_ascii (c : Char) : c.toLower.toNat < 128 ↔ c.toNat < 128 := by
  by_cases hc : c.isUpper = true
  · have hrange : c.toNat ≤ 90 := by
      simp only [Char.isUpper, decide_eq_true_eq] at hc
      exact hc.2
    have hvalid : (c.toNat + 32).isValidChar := .inl (by omega)
    rw [Char.toLower_eq_of_isUpper hc, Char.toNat_ofNat, if_pos hvalid]
    omega
  · rw [Char.toLower_eq_of_not_isUpper hc]

theorem toAsciiLowercase_idem (value : Text) :
    toAsciiLowercase (toAsciiLowercase value) = toAsciiLowercase value := by
  show (value.map Char.toLower).map Char.toLower = value.map Char.toLower
  rw [List.map_map]
  exact List.map_congr_left fun c _ => Char.toLower_toLower_eq_toLower c

theorem backslashes_toAsciiLowercase (value : Text) :
    backslashes (toAsciiLowercase value) = toAsciiLowercase (backslashes value) := by
  rw [backslashes, backslashes, toAsciiLowercase, toAsciiLowercase, List.map_map, List.map_map]
  refine List.map_congr_left fun c _ => ?_
  rw [Function.comp_apply, Function.comp_apply]
  by_cases hc : c = '/'
  · rw [hc]
    rfl
  · rw [if_neg hc, if_neg ((toLower_eq_iff rfl).not.mpr hc)]

theorem isPrefixOf_toAsciiLowercase {mark : Text} (hmark : mark.any Char.isAlpha = false)
    (value : Text) : mark.isPrefixOf (toAsciiLowercase value) = mark.isPrefixOf value := by
  induction mark generalizing value with
  | nil => rw [List.isPrefixOf_nil_left, List.isPrefixOf_nil_left]
  | cons d mark ih =>
    cases value with
    | nil => rfl
    | cons c value =>
      rw [List.any_cons, Bool.or_eq_false_iff] at hmark
      show (d == c.toLower && mark.isPrefixOf (toAsciiLowercase value)) =
        (d == c && mark.isPrefixOf value)
      rw [ih hmark.2, BEq.comm, toLower_beq hmark.1, BEq.comm]

theorem stripLiteralMark_toAsciiLowercase (value : Text) :
    stripLiteralMark (toAsciiLowercase value) = (stripLiteralMark value).map toAsciiLowercase := by
  have htake : ∀ n mark, eqIgnoreAsciiCase ((toAsciiLowercase value).take n) mark =
      eqIgnoreAsciiCase (value.take n) mark := by
    intro n mark
    have hboth : (toAsciiLowercase value).take n = toAsciiLowercase (value.take n) :=
      List.map_take.symm
    rw [eqIgnoreAsciiCase, eqIgnoreAsciiCase, hboth, toAsciiLowercase_idem]
  have hdrop : ∀ n, (toAsciiLowercase value).drop n = toAsciiLowercase (value.drop n) :=
    fun n => List.map_drop.symm
  have hdevice : ("\\\\.\\".toList).any Char.isAlpha = false := by decide
  rw [stripLiteralMark, stripLiteralMark, htake, htake, hdrop, hdrop,
    isPrefixOf_toAsciiLowercase hdevice]
  split_ifs
  · show some ("\\\\".toList.map Char.toLower ++ (value.drop 8).map Char.toLower) = _
    rw [← List.map_append]
    rfl
  · rfl
  · rfl
  · rfl

theorem isUnc_toAsciiLowercase (value : Text) : isUnc (toAsciiLowercase value) = isUnc value :=
  isPrefixOf_toAsciiLowercase (by decide) value

theorem isDriveAbsolute_iff {value : Text} :
    isDriveAbsolute value = true ↔
      ∃ letter rest, letter.toNat < 128 ∧ value = letter :: ':' :: rest := by
  constructor
  · intro h
    unfold isDriveAbsolute at h
    split at h
    · rename_i letter rest
      exact ⟨letter, rest, of_decide_eq_true h, rfl⟩
    · cases h
  · rintro ⟨letter, rest, hletter, rfl⟩
    exact decide_eq_true hletter

theorem isDriveAbsolute_toAsciiLowercase (value : Text) :
    isDriveAbsolute (toAsciiLowercase value) = isDriveAbsolute value := by
  rw [Bool.eq_iff_iff, isDriveAbsolute_iff, isDriveAbsolute_iff]
  constructor
  · rintro ⟨letter, rest, hletter, heq⟩
    obtain ⟨c, tail, rfl, rfl, htail⟩ := List.map_eq_cons_iff.mp heq
    obtain ⟨colon, rest', rfl, hcolon, -⟩ := List.map_eq_cons_iff.mp htail
    rw [toLower_eq_iff rfl] at hcolon
    exact ⟨c, rest', (toLower_ascii c).mp hletter, by rw [hcolon]⟩
  · rintro ⟨letter, rest, hletter, rfl⟩
    exact ⟨letter.toLower, toAsciiLowercase rest, (toLower_ascii letter).mpr hletter, rfl⟩

theorem minimumDepth_toAsciiLowercase (value : Text) :
    minimumDepth (toAsciiLowercase value) = minimumDepth value := by
  rw [minimumDepth, minimumDepth, isUnc_toAsciiLowercase, isDriveAbsolute_toAsciiLowercase]

theorem splitOn_toAsciiLowercase (value : Text) :
    splitOn '\\' (toAsciiLowercase value) = (splitOn '\\' value).map toAsciiLowercase := by
  induction value with
  | nil => rfl
  | cons c rest ih =>
    show splitOn '\\' (c.toLower :: toAsciiLowercase rest) = _
    rw [splitOn, splitOn, ih]
    by_cases hc : c = '\\'
    · rw [if_pos hc, if_pos ((toLower_eq_iff rfl).mpr hc)]
      rfl
    · rw [if_neg hc, if_neg ((toLower_eq_iff rfl).not.mpr hc)]
      cases splitOn '\\' rest <;> rfl

theorem rdropWhile_toAsciiLowercase (name : Text) :
    (toAsciiLowercase name).rdropWhile isTail = toAsciiLowercase (name.rdropWhile isTail) := by
  have htail : isTail ∘ Char.toLower = isTail := by
    funext c
    rw [Function.comp_apply, isTail, toLower_beq rfl, toLower_beq rfl, isTail]
  rw [toAsciiLowercase, List.rdropWhile, ← List.map_reverse, List.dropWhile_map, htail,
    ← List.map_reverse, List.rdropWhile, toAsciiLowercase]

theorem toAsciiLowercase_eq_iff {s t : Text} (ht : t.any Char.isAlpha = false) :
    toAsciiLowercase s = t ↔ s = t := by
  induction t generalizing s with
  | nil => exact List.map_eq_nil_iff
  | cons d t ih =>
    rw [List.any_cons, Bool.or_eq_false_iff] at ht
    cases s with
    | nil => exact iff_of_false (List.cons_ne_nil d t).symm (List.cons_ne_nil d t).symm
    | cons c s =>
      show c.toLower :: toAsciiLowercase s = d :: t ↔ c :: s = d :: t
      rw [List.cons_eq_cons, List.cons_eq_cons, toLower_eq_iff ht.1, ih ht.2]

theorem pushComponent_toAsciiLowercase (depth : Nat) (parts : List Text) (component : Text) :
    pushComponent depth parts (toAsciiLowercase component) =
      pushComponent depth parts component := by
  have hempty := toAsciiLowercase_eq_iff (s := component) (t := []) (by decide)
  have hdot := toAsciiLowercase_eq_iff (s := component) (t := ['.']) (by decide)
  have hparent := toAsciiLowercase_eq_iff (s := component) (t := ['.', '.']) (by decide)
  have hrest := rdropWhile_toAsciiLowercase component
  have hnone := toAsciiLowercase_eq_iff (s := component.rdropWhile isTail) (t := []) (by decide)
  unfold isTail at hrest hnone
  rw [pushComponent, pushComponent]
  simp only [hempty, hdot, hparent, hrest, hnone, toAsciiLowercase_idem]

theorem keyOf_toAsciiLowercase (value : Text) : keyOf (toAsciiLowercase value) = keyOf value := by
  have hnul : '\x00' ∈ toAsciiLowercase (backslashes value) ↔ '\x00' ∈ backslashes value := by
    rw [toAsciiLowercase, List.mem_map]
    constructor
    · rintro ⟨c, hc, hlower⟩
      rwa [← (toLower_eq_iff rfl).mp hlower]
    · exact fun h => ⟨_, h, rfl⟩
  have hplain : ∀ plain, keyOfPlain (toAsciiLowercase plain) = keyOfPlain plain := by
    intro plain
    rw [keyOfPlain, keyOfPlain, minimumDepth_toAsciiLowercase, isUnc_toAsciiLowercase,
      splitOn_toAsciiLowercase, walk, walk, List.foldlM_map]
    simp only [pushComponent_toAsciiLowercase]
  rw [keyOf_eq, keyOf_eq, backslashes_toAsciiLowercase, stripLiteralMark_toAsciiLowercase]
  refine if_congr hnul rfl ?_
  cases stripLiteralMark (backslashes value) with
  | none => rfl
  | some plain => exact hplain plain

/-! ### Marks -/

theorem prefix_of_eqIgnoreAsciiCase {mark : Text} (hmark : mark.any Char.isAlpha = false) {n : Nat}
    {value : Text} (h : eqIgnoreAsciiCase (value.take n) mark = true) : mark <+: value := by
  rw [eqIgnoreAsciiCase, beq_iff_eq, (toAsciiLowercase_eq_iff hmark).mpr rfl,
    toAsciiLowercase_eq_iff hmark] at h
  exact h ▸ List.take_prefix n value

theorem stripLiteralMark_eq_self {value : Text} (hmark : ¬ "\\\\?\\".toList <+: value)
    (hdevice : ¬ "\\\\.\\".toList <+: value) : stripLiteralMark value = some value := by
  have hunc : ¬ eqIgnoreAsciiCase (value.take 8) "\\\\?\\UNC\\".toList = true := by
    intro h
    rw [eqIgnoreAsciiCase, beq_iff_eq] at h
    have hfour : eqIgnoreAsciiCase ((value.take 8).take 4) "\\\\?\\".toList = true := by
      rw [eqIgnoreAsciiCase, toAsciiLowercase, List.map_take]
      exact beq_iff_eq.mpr (congrArg (List.take 4) h)
    rw [List.take_take] at hfour
    exact hmark (prefix_of_eqIgnoreAsciiCase rfl hfour)
  rw [stripLiteralMark, if_neg hunc, if_neg fun h => hmark (prefix_of_eqIgnoreAsciiCase rfl h),
    if_neg fun h => hdevice (List.isPrefixOf_iff_prefix.mp h)]

theorem stripLiteralMark_of_head {c : Char} (hc : c ≠ '\\') (rest : Text) :
    stripLiteralMark (c :: rest) = some (c :: rest) := by
  have hhead : ∀ mark : Text, ¬ '\\' :: mark <+: c :: rest :=
    fun mark h => hc (List.cons_prefix_cons.mp h).1.symm
  exact stripLiteralMark_eq_self (hhead _) (hhead _)

theorem OnDrive.backslashes {v : Text} (h : OnDrive v) : ∃ letter rest,
    letter ≠ '\\' ∧ Esp.backslashes v = letter :: ':' :: Esp.backslashes rest := by
  obtain ⟨letter, rest, hletter, rfl⟩ := h
  have hne : ∀ d : Char, d.isAlpha = false → letter ≠ d := by
    rintro d hd rfl
    rw [isAsciiAlphabetic, hd] at hletter
    cases hletter
  exact ⟨letter, rest, hne '\\' rfl, congrArg (· :: _) (if_neg (hne '/' rfl))⟩

theorem stripLiteralMark_drive (letter : Char) (rest : Text) :
    stripLiteralMark ("\\\\?\\".toList ++ letter :: ':' :: rest) =
      some (letter :: ':' :: rest) := by
  have hunc : ¬ eqIgnoreAsciiCase (("\\\\?\\".toList ++ letter :: ':' :: rest).take 8)
      "\\\\?\\UNC\\".toList = true := by
    rw [eqIgnoreAsciiCase, beq_iff_eq]
    intro h
    have hcolon : some (Char.toLower ':') = some (Char.toLower 'N') :=
      congrArg (fun s : Text => s[5]?) h
    exact absurd hcolon (by decide)
  have hmark : eqIgnoreAsciiCase (("\\\\?\\".toList ++ letter :: ':' :: rest).take 4)
      "\\\\?\\".toList = true := rfl
  rw [stripLiteralMark, if_neg hunc, if_pos hmark]
  rfl

theorem stripLiteralMark_unc (rest : Text) :
    stripLiteralMark ("\\\\?\\UNC\\".toList ++ rest) = some ("\\\\".toList ++ rest) := by
  have hmark : eqIgnoreAsciiCase (("\\\\?\\UNC\\".toList ++ rest).take 8)
      "\\\\?\\UNC\\".toList = true := rfl
  rw [stripLiteralMark, if_pos hmark]
  rfl

theorem keyOf_driveMark {v : Text} (h : OnDrive v) :
    keyOf v = keyOf ("\\\\?\\".toList ++ v) := by
  obtain ⟨letter, rest, hletter, hv⟩ := h.backslashes
  have happend : backslashes ("\\\\?\\".toList ++ v) = "\\\\?\\".toList ++ backslashes v :=
    backslashes_append _ v
  rw [keyOf_eq, keyOf_eq, happend, hv, stripLiteralMark_drive, stripLiteralMark_of_head hletter]
  refine if_congr ?_ rfl rfl
  rw [List.mem_append]
  exact (or_iff_right (by decide)).symm

theorem keyOf_uncMark {v : Text}
    (h : stripLiteralMark (backslashes ("\\\\".toList ++ v)) =
      some (backslashes ("\\\\".toList ++ v))) :
    keyOf ("\\\\".toList ++ v) = keyOf ("\\\\?\\UNC\\".toList ++ v) := by
  have happend : backslashes ("\\\\?\\UNC\\".toList ++ v) =
      "\\\\?\\UNC\\".toList ++ backslashes v := backslashes_append _ v
  have happend' : backslashes ("\\\\".toList ++ v) = "\\\\".toList ++ backslashes v :=
    backslashes_append _ v
  rw [keyOf_eq, keyOf_eq, h, happend, happend', stripLiteralMark_unc]
  refine if_congr ?_ rfl rfl
  rw [List.mem_append, List.mem_append]
  exact (or_iff_right (by decide)).trans (or_iff_right (by decide)).symm

theorem keyOf_respelled {v v' : Text} (h : Respelled v v') : keyOf v = keyOf v' := by
  cases h with
  | letterCase h => rw [← keyOf_toAsciiLowercase, h, keyOf_toAsciiLowercase]
  | slashes v => rw [keyOf_eq, keyOf_eq, backslashes_backslashes]
  | separator h =>
    refine @keyOf_skip _ [[]] _ h (by simp) fun parts _ => ?_
    rw [List.foldlM_cons, pushComponent_nil]
    rfl
  | dot h =>
    refine @keyOf_skip _ [['.']] _ h (by simp) fun parts _ => ?_
    rw [List.foldlM_cons, pushComponent_dot]
    rfl
  | @parent xs ys parts name hname hwalk hdepth h =>
    refine @keyOf_skip _ [name, ['.', '.']] _ h ?_ fun parts' hparts => ?_
    · simp [hname.nul]
    · rw [hwalk, Option.some_inj] at hparts
      rw [← hparts, List.foldlM_cons, pushComponent_name hname.named]
      show (pushComponent _ (parts ++ [_]) ['.', '.']).bind _ = _
      rw [pushComponent_parent, List.dropLast_concat]
      · rfl
      · rw [List.length_append, List.length_singleton]
        exact Nat.lt_succ_of_le hdepth
  | ending hname htail h => exact keyOf_ending hname htail h
  | driveMark h => exact keyOf_driveMark h
  | uncMark h => exact keyOf_uncMark h

theorem keyOf_related {v v' : Text} (h : Relation.EqvGen Respelled v v') : keyOf v = keyOf v' := by
  induction h with
  | rel v v' h => exact keyOf_respelled h
  | refl v => rfl
  | symm v v' _ ih => exact ih.symm
  | trans v v' v'' _ _ ih ih' => exact ih.trans ih'

end Esp
end CmTrace
