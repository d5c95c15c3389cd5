import CmTrace.Esp.LogPath

/-!
# Installer logs with one key

Every absolute path is a respelling of its key, so two absolute paths with one key are
respellings of each other.  A key is its own key unless it begins or ends with what is
taken off a path.
-/

namespace CmTrace
namespace Esp

open Text

/-! ## Paths are respellings of their keys -/

/-- A component of a key. -/
structure IsPart (part : Text) : Prop where
  name : IsName part
  settled : toAsciiLowercase (part.rdropWhile isTail) = part

theorem mem_toAsciiLowercase {d : Char} (hd : d.isAlpha = false) {s : Text} :
    d ∈ toAsciiLowercase s ↔ d ∈ s := by
  rw [toAsciiLowercase, List.mem_map]
  constructor
  · rintro ⟨c, hc, hlower⟩
    rwa [← (toLower_eq_iff hd).mp hlower]
  · exact fun h => ⟨d, h, (toLower_eq_iff hd).mpr rfl⟩

theorem IsName.toAsciiLowercase {name : Text} (h : IsName name) :
    IsName (Text.toAsciiLowercase name) where
  component := ⟨(mem_toAsciiLowercase rfl).not.mpr h.component.1,
    (mem_toAsciiLowercase rfl).not.mpr h.component.2⟩
  named := by
    rw [rdropWhile_toAsciiLowercase, ne_eq, Text.toAsciiLowercase, List.map_eq_nil_iff]
    exact h.named
  nul := (mem_toAsciiLowercase rfl).not.mpr h.nul

theorem IsName.rdropWhile {name : Text} (h : IsName name) : IsName (name.rdropWhile isTail) where
  component := ⟨fun hc => h.component.1 ((List.rdropWhile_prefix isTail name).subset hc),
    fun hc => h.component.2 ((List.rdropWhile_prefix isTail name).subset hc)⟩
  named := by
    rw [List.rdropWhile_idempotent]
    exact h.named
  nul hc := h.nul ((List.rdropWhile_prefix isTail name).subset hc)

theorem IsName.part {name : Text} (h : IsName name) :
    IsPart (Text.toAsciiLowercase (name.rdropWhile isTail)) where
  name := h.rdropWhile.toAsciiLowercase
  settled := by
    rw [rdropWhile_toAsciiLowercase, List.rdropWhile_idempotent, toAsciiLowercase_idem]

theorem foldlM_parts {parts : List Text} (h : ∀ part ∈ parts, IsPart part) (depth : Nat)
    (before : List Text) : parts.foldlM (pushComponent depth) before = some (before ++ parts) := by
  induction parts generalizing before with
  | nil => exact congrArg some (List.append_nil before).symm
  | cons part parts ih =>
    have hpart := h part List.mem_cons_self
    rw [List.foldlM_cons, pushComponent_name hpart.name.named, hpart.settled]
    show parts.foldlM _ (before ++ [part]) = _
    rw [ih (fun p hp => h p (List.mem_cons_of_mem part hp)), List.append_assoc]
    rfl

theorem toAsciiLowercase_spell (cs : List Text) :
    toAsciiLowercase (spell cs) = spell (cs.map toAsciiLowercase) := by
  induction cs with
  | nil => rfl
  | cons c cs ih =>
    cases cs with
    | nil => rfl
    | cons next cs =>
      rw [spell_cons_cons, List.map_cons, List.map_cons, spell_cons_cons, ← List.map_cons, ← ih]
      exact List.map_append

theorem named_related {xs ys : List Text} {name : Text} (hname : IsName name)
    (h : SameRoot (xs ++ toAsciiLowercase (name.rdropWhile isTail) :: ys)
      (xs ++ toAsciiLowercase name :: ys)) :
    Relation.EqvGen Respelled (spell (xs ++ name :: ys))
      (spell (xs ++ toAsciiLowercase (name.rdropWhile isTail) :: ys)) := by
  have hlower : Respelled (spell (xs ++ name :: ys))
      (spell (xs ++ toAsciiLowercase name :: ys)) := by
    refine .letterCase ?_
    rw [toAsciiLowercase_spell, toAsciiLowercase_spell, List.map_append, List.map_append,
      List.map_cons, List.map_cons, toAsciiLowercase_idem]
  have htail : toAsciiLowercase (name.rdropWhile isTail) ++
      toAsciiLowercase (name.rtakeWhile isTail) = toAsciiLowercase name := by
    rw [toAsciiLowercase, toAsciiLowercase, ← List.map_append, List.rdropWhile_append_rtakeWhile]
    rfl
  have htails : ∀ c ∈ toAsciiLowercase (name.rtakeWhile isTail), isTail c = true := by
    intro c hc
    obtain ⟨d, hd, rfl⟩ := List.mem_map.mp hc
    have hdtail := List.mem_rtakeWhile_imp hd
    rwa [isTail, toLower_beq rfl, toLower_beq rfl]
  rw [← htail] at h hlower
  refine .trans _ _ _ (.rel _ _ hlower) (.symm _ _ (.rel _ _ ?_))
  exact .ending hname.part.name htails h

/-- Components that every path may begin with that has one root, and the components
that they leave. -/
structure Root (depth : Nat) (pre base : List Text) : Prop where
  same : ∀ {cs cs' : List Text}, (∀ c ∈ cs, IsComponent c) → (∀ c ∈ cs', IsComponent c) →
    SameRoot (pre ++ cs) (pre ++ cs')
  depth_eq : ∀ cs, minimumDepth (spell (pre ++ cs)) = depth
  walk_eq : walk depth pre = some base
  short : base.length ≤ depth

theorem Root.same_after {depth : Nat} {pre base parts cs cs' : List Text}
    (root : Root depth pre base) (hparts : ∀ part ∈ parts, IsPart part)
    (hcs : ∀ c ∈ cs, IsComponent c) (hcs' : ∀ c ∈ cs', IsComponent c) :
    SameRoot (pre ++ parts ++ cs) (pre ++ parts ++ cs') := by
  have hboth : ∀ {cs : List Text}, (∀ c ∈ cs, IsComponent c) → ∀ c ∈ parts ++ cs, IsComponent c :=
    fun hcs c hc => (List.mem_append.mp hc).elim (fun hc => (hparts c hc).name.component) (hcs c)
  rw [List.append_assoc, List.append_assoc]
  exact root.same (hboth hcs) (hboth hcs')

theorem Root.pop {depth : Nat} {pre base parts rest result : List Text}
    (root : Root depth pre base)
    (h : (pushComponent depth (base ++ parts) ['.', '.']).bind
      (fun parts => rest.foldlM (pushComponent depth) parts) = some result) :
    ∃ parts₀ name, parts = parts₀ ++ [name] ∧ depth ≤ (base ++ parts₀).length ∧
      rest.foldlM (pushComponent depth) (base ++ parts₀) = some result := by
  by_cases hshort : (base ++ parts).length ≤ depth
  · rw [pushComponent, if_neg (by decide), if_pos rfl, if_pos hshort] at h
    cases h
  · rw [Nat.not_le] at hshort
    rw [pushComponent_parent hshort] at h
    rcases List.eq_nil_or_concat parts with rfl | ⟨parts₀, name, rfl⟩
    · rw [List.append_nil] at hshort
      exact absurd root.short (Nat.not_le.mpr hshort)
    · rw [List.concat_eq_append, ← List.append_assoc] at hshort h
      rw [List.dropLast_concat] at h
      refine ⟨parts₀, name, List.concat_eq_append, ?_, h⟩
      rw [List.length_append, List.length_singleton] at hshort
      exact Nat.le_of_lt_succ hshort

theorem Root.related {depth : Nat} {pre base : List Text} (root : Root depth pre base)
    {rest : List Text} (hrest : ∀ c ∈ rest, IsComponent c ∧ '\x00' ∉ c) :
    ∀ {parts result : List Text}, (∀ part ∈ parts, IsPart part) →
      rest.foldlM (pushComponent depth) (base ++ parts) = some result →
      ∃ parts', result = base ++ parts' ∧ (∀ part ∈ parts', IsPart part) ∧
        Relation.EqvGen Respelled (spell (pre ++ parts ++ rest)) (spell (pre ++ parts')) := by
  induction rest with
  | nil =>
    intro parts result hparts h
    refine ⟨parts, (Option.some_inj.mp h).symm, hparts, ?_⟩
    rw [List.append_nil]
    exact .refl _
  | cons c rest ih =>
    intro parts result hparts h
    obtain ⟨hc, hnul⟩ := hrest c List.mem_cons_self
    have hrest' := fun d hd => hrest d (List.mem_cons_of_mem c hd)
    have hys : ∀ d ∈ rest, IsComponent d := fun d hd => (hrest' d hd).1
    have hcons : ∀ {name : Text}, IsComponent name → ∀ d ∈ name :: rest, IsComponent d :=
      fun hname d hd => (List.mem_cons.mp hd).elim (fun heq => heq ▸ hname) (hys d)
    rw [List.foldlM_cons] at h
    by_cases hempty : c = []
    · rw [hempty, pushComponent_nil] at h
      obtain ⟨parts', hresult, hparts', hrelated⟩ := ih hrest' hparts h
      refine ⟨parts', hresult, hparts', .trans _ _ _ (.symm _ _ (.rel _ _ ?_)) hrelated⟩
      rw [hempty] at hc ⊢
      exact .separator (root.same_after hparts hys (hcons hc))
    by_cases hdot : c = ['.']
    · rw [hdot, pushComponent_dot] at h
      obtain ⟨parts', hresult, hparts', hrelated⟩ := ih hrest' hparts h
      refine ⟨parts', hresult, hparts', .trans _ _ _ (.symm _ _ (.rel _ _ ?_)) hrelated⟩
      rw [hdot] at hc ⊢
      exact .dot (root.same_after hparts hys (hcons hc))
    by_cases hparent : c = ['.', '.']
    · subst hparent
      obtain ⟨parts₀, name, rfl, hdeep, hback⟩ := root.pop h
      have hname := (hparts name (List.mem_append_right _ List.mem_cons_self)).name
      have hparts₀ := fun part hpart => hparts part (List.mem_append_left [name] hpart)
      obtain ⟨parts', hresult, hparts', hrelated⟩ := ih hrest' hparts₀ hback
      refine ⟨parts', hresult, hparts', .trans _ _ _ (.symm _ _ (.rel _ _ ?_)) hrelated⟩
      have hdepth : minimumDepth (spell (pre ++ parts₀ ++ rest)) = depth := by
        rw [List.append_assoc, root.depth_eq]
      have hwalk : walk depth (pre ++ parts₀) = some (base ++ parts₀) := by
        rw [walk_append, root.walk_eq, Option.bind_some, foldlM_parts hparts₀]
      rw [← hdepth] at hwalk
      have hlist : pre ++ (parts₀ ++ [name]) ++ ['.', '.'] :: rest =
          pre ++ parts₀ ++ name :: ['.', '.'] :: rest := by
        rw [← List.append_assoc, List.append_assoc (pre ++ parts₀), List.singleton_append]
      rw [hlist]
      exact .parent hname hwalk (hdepth.symm ▸ hdeep) (root.same_after hparts₀ hys
        fun d hd => (List.mem_cons.mp hd).elim (fun heq => heq ▸ hname.component) (hcons hc d))
    · have hname : IsName c := by
        refine ⟨hc, fun hnone => ?_, hnul⟩
        rw [pushComponent, if_neg (not_or.mpr ⟨hempty, hdot⟩), if_neg hparent] at h
        have hnone' : c.rdropWhile (fun d => d == ' ' || d == '.') = [] := hnone
        dsimp only at h
        rw [if_pos hnone'] at h
        cases h
      rw [pushComponent_name hname.named] at h
      have hparts' : ∀ part ∈ parts ++ [toAsciiLowercase (c.rdropWhile isTail)], IsPart part := by
        intro part hpart
        rcases List.mem_append.mp hpart with hpart | hpart
        · exact hparts part hpart
        · rw [List.mem_singleton.mp hpart]
          exact hname.part
      rw [Option.bind_eq_bind, Option.bind_some, List.append_assoc] at h
      obtain ⟨parts', hresult, hall, hrelated⟩ := ih hrest' hparts' h
      refine ⟨parts', hresult, hall, .trans _ _ _ (named_related hname ?_) ?_⟩
      · exact root.same_after hparts (hcons hname.part.name.component)
          (hcons hname.toAsciiLowercase.component)
      · rwa [← List.append_assoc, List.append_assoc _ [_]] at hrelated

/-! ### Roots -/

theorem spell_cons (c : Text) (cs : List Text) : c <+: spell (c :: cs) := by
  cases cs with
  | nil => exact List.prefix_rfl
  | cons next cs =>
    rw [spell_cons_cons]
    exact List.prefix_append c _

def IsDrive (component : Text) : Prop :=
  ∃ letter rest, letter ≠ '\\' ∧ letter.toNat < 128 ∧ component = letter :: ':' :: rest

theorem IsDrive.facts {component : Text} (h : IsDrive component) (cs : List Text) :
    stripLiteralMark (spell (component :: cs)) = some (spell (component :: cs)) ∧
      isUnc (spell (component :: cs)) = false ∧ minimumDepth (spell (component :: cs)) = 1 := by
  obtain ⟨letter, rest, hletter, hascii, rfl⟩ := h
  obtain ⟨tail, htail⟩ := spell_cons (letter :: ':' :: rest) cs
  rw [← htail, List.cons_append, List.cons_append]
  have hunc : isUnc (letter :: ':' :: (rest ++ tail)) = false := by
    rw [isUnc, Bool.eq_false_iff]
    intro hprefix
    obtain ⟨t, ht⟩ := List.isPrefixOf_iff_prefix.mp hprefix
    exact hletter (List.cons.inj ht).1.symm
  refine ⟨stripLiteralMark_of_head hletter _, hunc, ?_⟩
  rw [minimumDepth, hunc, if_neg Bool.false_ne_true,
    if_pos (isDriveAbsolute_iff.mpr ⟨letter, _, hascii, rfl⟩)]

theorem IsDrive.sameRoot {c c' : Text} {cs cs' : List Text} (h : IsDrive c) (h' : IsDrive c')
    (hcs : ∀ d ∈ c :: cs, IsComponent d) (hcs' : ∀ d ∈ c' :: cs', IsComponent d) :
    SameRoot (c :: cs) (c' :: cs') where
  components := hcs
  components' := hcs'
  plain := (h.facts cs).1
  plain' := (h'.facts cs').1
  unc := (h.facts cs).2.1.trans (h'.facts cs').2.1.symm
  depth := (h.facts cs).2.2.trans (h'.facts cs').2.2.symm

theorem IsDrive.root {c : Text} (h : IsDrive c) (hpart : IsPart c) : Root 1 [c] [c] where
  same hcs hcs' := by
    have hcons : ∀ {cs : List Text}, (∀ d ∈ cs, IsComponent d) → ∀ d ∈ c :: cs, IsComponent d :=
      fun hcs d hd => (List.mem_cons.mp hd).elim (fun heq => heq ▸ hpart.name.component) (hcs d)
    exact h.sameRoot h (hcons hcs) (hcons hcs')
  depth_eq cs := (h.facts cs).2.2
  walk_eq := foldlM_parts (fun part hmem => List.mem_singleton.mp hmem ▸ hpart) 1 []
  short := Nat.le_refl 1

theorem isUnc_server (v : Text) : isUnc ('\\' :: '\\' :: v) = true := rfl

theorem minimumDepth_server (v : Text) : minimumDepth ('\\' :: '\\' :: v) = 2 :=
  if_pos (isUnc_server v)

theorem stripLiteralMark_separators (v : Text) :
    stripLiteralMark ('\\' :: '\\' :: '\\' :: v) = some ('\\' :: '\\' :: '\\' :: v) := by
  have hthird : ∀ {c : Char} {mark : Text}, c ≠ '\\' →
      ¬ '\\' :: '\\' :: c :: mark <+: '\\' :: '\\' :: '\\' :: v := by
    intro c mark hc h
    simp only [List.cons_prefix_cons, true_and] at h
    exact hc h.1
  exact stripLiteralMark_eq_self (hthird (by decide)) (hthird (by decide))

theorem spell_server (cs : List Text) :
    (cs = [] ∧ spell ([[], [], []] ++ cs) = ['\\', '\\']) ∨
      spell ([[], [], []] ++ cs) = '\\' :: '\\' :: '\\' :: spell cs := by
  cases cs with
  | nil => exact .inl ⟨rfl, rfl⟩
  | cons c cs => exact .inr rfl

theorem server_facts (cs : List Text) :
    stripLiteralMark (spell ([[], [], []] ++ cs)) = some (spell ([[], [], []] ++ cs)) ∧
      isUnc (spell ([[], [], []] ++ cs)) = true ∧
      minimumDepth (spell ([[], [], []] ++ cs)) = 2 := by
  rcases spell_server cs with ⟨-, h⟩ | h
  · rw [h]
    exact ⟨by decide, by decide, by decide⟩
  · rw [h]
    exact ⟨stripLiteralMark_separators _, isUnc_server _, minimumDepth_server _⟩

theorem isComponent_nil : IsComponent [] := ⟨List.not_mem_nil, List.not_mem_nil⟩

theorem server_root : Root 2 [[], [], []] [] where
  same {cs cs'} hcs hcs' := by
    have hall : ∀ {cs : List Text}, (∀ d ∈ cs, IsComponent d) →
        ∀ d ∈ [[], [], []] ++ cs, IsComponent d := by
      intro cs hcs d hd
      simp only [List.cons_append, List.nil_append, List.mem_cons] at hd
      rcases hd with rfl | rfl | rfl | hd
      · exact isComponent_nil
      · exact isComponent_nil
      · exact isComponent_nil
      · exact hcs d hd
    obtain ⟨hplain, hunc, hdepth⟩ := server_facts cs
    obtain ⟨hplain', hunc', hdepth'⟩ := server_facts cs'
    exact ⟨hall hcs, hall hcs', hplain, hplain', hunc.trans hunc'.symm, hdepth.trans hdepth'.symm⟩
  depth_eq cs := (server_facts cs).2.2
  walk_eq := rfl
  short := Nat.zero_le 2

/-! ### From a path to its key -/

theorem splitOn_cons_of_ne {c : Char} (hc : c ≠ '\\') (rest : Text) :
    ∃ piece pieces, splitOn '\\' rest = piece :: pieces ∧
      splitOn '\\' (c :: rest) = (c :: piece) :: pieces := by
  obtain ⟨piece, pieces, h⟩ := List.exists_cons_of_ne_nil (splitOn_ne_nil '\\' rest)
  refine ⟨piece, pieces, h, ?_⟩
  rw [splitOn, if_neg hc, h]

theorem isComponent_of_mem_splitOn {b : Text} (hb : '/' ∉ b) :
    ∀ c ∈ splitOn '\\' b, IsComponent c := fun _ hc =>
  ⟨fun h => (mem_of_mem_splitOn hc _ h).2 rfl, fun h => hb (mem_of_mem_splitOn hc _ h).1⟩

theorem OnDrive.isDrive {c : Text} (h : OnDrive c) : IsDrive c := by
  obtain ⟨letter, rest, hletter, rfl⟩ := h
  refine ⟨letter, rest, ?_, ?_, rfl⟩
  · rintro rfl
    cases hletter
  · rw [isAsciiAlphabetic, Char.isAlpha, Bool.or_eq_true] at hletter
    rcases hletter with hupper | hlower
    · simp only [Char.isUpper, decide_eq_true_eq] at hupper
      exact Nat.lt_of_le_of_lt hupper.2 (by decide)
    · simp only [Char.isLower, Bool.and_eq_true, decide_eq_true_eq] at hlower
      exact Nat.lt_of_le_of_lt hlower.2 (by decide)

theorem rdropWhile_append_of_last {s : Text} {c : Char} (hc : isTail c = false) (t : Text) :
    (s ++ c :: t).rdropWhile isTail = s ++ c :: t.rdropWhile isTail := by
  induction t using List.reverseRecOn with
  | nil => rw [List.rdropWhile_concat_neg _ _ _ (Bool.eq_false_iff.mp hc)]; rfl
  | append_singleton t d ih =>
    rw [← List.cons_append, ← List.append_assoc]
    by_cases hd : isTail d = true
    · rw [List.rdropWhile_concat_pos _ _ _ hd, List.rdropWhile_concat_pos _ _ _ hd, ih]
    · rw [List.rdropWhile_concat_neg _ _ _ hd, List.rdropWhile_concat_neg _ _ _ hd,
        List.append_assoc]
      rfl

theorem OnDrive.toAsciiLowercase {c : Text} (h : OnDrive c) :
    OnDrive (Text.toAsciiLowercase c) := by
  obtain ⟨letter, rest, hletter, rfl⟩ := h
  refine ⟨letter.toLower, Text.toAsciiLowercase rest, ?_, rfl⟩
  rw [isAsciiAlphabetic, Char.isAlpha_toLower_eq_isAlpha]
  exact hletter

theorem OnDrive.rdropWhile {c : Text} (h : OnDrive c) : OnDrive (c.rdropWhile isTail) := by
  obtain ⟨letter, rest, hletter, rfl⟩ := h
  have hkeep : ([letter] ++ ':' :: rest).rdropWhile isTail =
      [letter] ++ ':' :: rest.rdropWhile isTail := rdropWhile_append_of_last rfl rest
  exact ⟨letter, rest.rdropWhile isTail, hletter, hkeep⟩

theorem OnDrive.ne_nil {c : Text} (h : OnDrive c) : c ≠ [] := by
  obtain ⟨letter, rest, -, rfl⟩ := h
  exact List.cons_ne_nil _ _

theorem OnDrive.splitOn {b : Text} (h : OnDrive b) :
    ∃ c cs, OnDrive c ∧ Text.splitOn '\\' b = c :: cs := by
  have hletter := h.isDrive
  obtain ⟨letter, rest, hne, -, rfl⟩ := hletter
  obtain ⟨letter', rest', halpha, heq⟩ := h
  obtain ⟨rfl, -⟩ := List.cons.inj heq
  obtain ⟨piece, pieces, hrest, hcolon⟩ := splitOn_cons_of_ne (c := ':') (by decide) rest
  obtain ⟨piece', pieces', hrest', hall⟩ := splitOn_cons_of_ne hne (':' :: rest)
  rw [hcolon] at hrest'
  obtain ⟨rfl, rfl⟩ := List.cons.inj hrest'
  exact ⟨_, pieces, ⟨letter, piece, halpha, rfl⟩, hall⟩

theorem drive_related {b k : Text} (hdrive : OnDrive b) (hslash : '/' ∉ b) (hnul : '\x00' ∉ b)
    (h : keyOfPlain b = some k) : Relation.EqvGen Respelled b k := by
  obtain ⟨c, cs, hc, hsplit⟩ := hdrive.splitOn
  have hcomponents := isComponent_of_mem_splitOn hslash
  have hnuls : ∀ d ∈ Text.splitOn '\\' b, '\x00' ∉ d :=
    fun d hd hd' => hnul (mem_of_mem_splitOn hd _ hd').1
  have hb : b = spell (c :: cs) := by rw [← hsplit, spell, join_splitOn]
  rw [hsplit] at hcomponents hnuls
  have hname : IsName c :=
    ⟨hcomponents c List.mem_cons_self, hc.rdropWhile.ne_nil, hnuls c List.mem_cons_self⟩
  obtain ⟨-, hunc, hdepth⟩ := hc.isDrive.facts cs
  rw [← hb] at hunc hdepth
  rw [keyOfPlain, hdepth, hunc, hsplit, walk, List.foldlM_cons, pushComponent_name hname.named] at h
  obtain ⟨parts, hparts, hk⟩ := Option.bind_eq_some_iff.mp h
  have hdrive' := hc.rdropWhile.toAsciiLowercase.isDrive
  have hrest : ∀ d ∈ cs, IsComponent d ∧ '\x00' ∉ d := fun d hd =>
    ⟨hcomponents d (List.mem_cons_of_mem c hd), hnuls d (List.mem_cons_of_mem c hd)⟩
  have hnone : ∀ part ∈ ([] : List Text), IsPart part :=
    fun part hpart => absurd hpart List.not_mem_nil
  obtain ⟨parts', rfl, -, hrelated⟩ := (hdrive'.root hname.part).related hrest hnone hparts
  rw [List.singleton_append, if_neg (List.cons_ne_nil _ _), if_neg Bool.false_ne_true,
    Option.some_inj] at hk
  have hcons : ∀ {d : Text}, IsComponent d → ∀ e ∈ d :: cs, IsComponent e :=
    fun hd e he => (List.mem_cons.mp he).elim (fun heq => heq ▸ hd) fun he => (hrest e he).1
  have hfirst := @named_related [] cs c hname (hdrive'.sameRoot hc.toAsciiLowercase.isDrive
    (hcons hname.part.name.component) (hcons hname.toAsciiLowercase.component))
  rw [hb, ← hk]
  exact .trans _ _ _ hfirst hrelated

theorem spell_two {cs : List Text} (hne : cs ≠ []) :
    spell ([[], []] ++ cs) = '\\' :: '\\' :: spell cs := by
  obtain ⟨c, cs, rfl⟩ := List.exists_cons_of_ne_nil hne
  rfl

theorem server_respelled {cs : List Text} (hcs : ∀ c ∈ cs, IsComponent c) (hne : cs ≠ [])
    (hplain : stripLiteralMark ('\\' :: '\\' :: spell cs) = some ('\\' :: '\\' :: spell cs)) :
    Respelled ('\\' :: '\\' :: spell cs) (spell ([[], [], []] ++ cs)) := by
  obtain ⟨hplain', hunc', hdepth'⟩ := server_facts cs
  have hroot := server_root.same hcs hcs
  have hsame : SameRoot ([[], []] ++ cs) ([[], []] ++ [] :: cs) := by
    refine ⟨fun c hc => hroot.components c ?_, hroot.components', ?_, hplain', ?_, ?_⟩
    · exact List.mem_cons_of_mem [] hc
    · rw [spell_two hne, hplain]
    · rw [spell_two hne]
      exact hunc'.symm
    · rw [spell_two hne, minimumDepth_server]
      exact hdepth'.symm
  rw [← spell_two hne]
  exact .separator hsame

theorem IsPart.not_device {part : Text} (h : IsPart part) (parts : List Text) :
    ¬ "\\\\.\\".toList <+: '\\' :: '\\' :: spell (part :: parts) := by
  intro hdevice
  have hdot : ['.', '\\'] <+: spell (part :: parts) := by
    have hall : '\\' :: '\\' :: ['.', '\\'] <+: '\\' :: '\\' :: spell (part :: parts) := hdevice
    simpa only [List.cons_prefix_cons, true_and] using hall
  obtain ⟨tail, htail⟩ := spell_cons part parts
  rw [← htail] at hdot
  have hnamed := h.name.named
  have hcomponent := h.name.component.1
  cases part with
  | nil => exact hnamed rfl
  | cons c part =>
    obtain ⟨rfl, hnext⟩ := List.cons_prefix_cons.mp hdot
    cases part with
    | nil => exact hnamed rfl
    | cons d part =>
      obtain ⟨rfl, -⟩ := List.cons_prefix_cons.mp hnext
      exact hcomponent (List.mem_cons_of_mem _ List.mem_cons_self)

theorem server_related {v k : Text} (hslash : '/' ∉ v) (hnul : '\x00' ∉ v)
    (hplain : stripLiteralMark ("\\\\".toList ++ v) = some ("\\\\".toList ++ v))
    (h : keyOfPlain ("\\\\".toList ++ v) = some k) (hmark : ¬ "\\\\?\\".toList <+: k) :
    Relation.EqvGen Respelled ("\\\\".toList ++ v) k := by
  have hcs := isComponent_of_mem_splitOn hslash
  have hne := splitOn_ne_nil '\\' v
  have hv : spell (Text.splitOn '\\' v) = v := join_splitOn '\\' v
  have hsplit : Text.splitOn '\\' ("\\\\".toList ++ v) = [] :: [] :: Text.splitOn '\\' v := rfl
  have hfirst := server_respelled hcs hne (by rw [hv]; exact hplain)
  rw [hv] at hfirst
  rw [keyOfPlain, hsplit, walk, List.foldlM_cons, pushComponent_nil] at h
  obtain ⟨parts, hparts, hk⟩ := Option.bind_eq_some_iff.mp h
  have hrest : ∀ d ∈ Text.splitOn '\\' v, IsComponent d ∧ '\x00' ∉ d :=
    fun d hd => ⟨hcs d hd, fun hd' => hnul (mem_of_mem_splitOn hd _ hd').1⟩
  have hnone : ∀ part ∈ ([] : List Text), IsPart part :=
    fun part hpart => absurd hpart List.not_mem_nil
  obtain ⟨parts', heq, hall, hrelated⟩ := server_root.related hrest hnone hparts
  rw [List.nil_append] at heq
  subst heq
  split_ifs at hk with hempty hunc
  · have hk' := Option.some_inj.mp hk
    have hmember : ∀ c ∈ parts, IsComponent c := fun c hc => (hall c hc).name.component
    have hlast : Respelled k (spell ([[], [], []] ++ parts)) := by
      rw [← hk'] at hmark ⊢
      refine server_respelled hmember hempty (stripLiteralMark_eq_self hmark ?_)
      obtain ⟨part, parts, rfl⟩ := List.exists_cons_of_ne_nil hempty
      exact (hall part List.mem_cons_self).not_device parts
    exact .trans _ _ _ (.rel _ _ hfirst) (.trans _ _ _ hrelated (.symm _ _ (.rel _ _ hlast)))
  · exact absurd rfl hunc

theorem absolute_related {v k : Text} (habsolute : IsAbsolute v) (h : keyOf v = some k)
    (hmark : ¬ "\\\\?\\".toList <+: k) : Relation.EqvGen Respelled v k := by
  rw [keyOf_eq] at h
  split_ifs at h with hnul
  have hslash := not_mem_backslashes v
  refine .trans _ _ _ (.rel _ _ (.slashes v)) ?_
  rw [IsAbsolute] at habsolute
  generalize backslashes v = b at habsolute h hnul hslash
  cases habsolute with
  | drive hdrive =>
    obtain ⟨letter, rest, hletter, -, rfl⟩ := hdrive.isDrive
    rw [stripLiteralMark_of_head hletter] at h
    exact drive_related hdrive hslash hnul h
  | @driveMark v hdrive =>
    rw [List.mem_append, not_or] at hslash hnul
    refine .trans _ _ _ (.symm _ _ (.rel _ _ (.driveMark hdrive))) ?_
    have hdrive' := hdrive
    obtain ⟨letter, rest, -, rfl⟩ := hdrive'
    rw [stripLiteralMark_drive] at h
    exact drive_related hdrive hslash.2 hnul.2 h
  | unc hplain =>
    rw [List.mem_append, not_or] at hslash hnul
    rw [hplain] at h
    exact server_related hslash.2 hnul.2 hplain h hmark
  | @uncMark mark v hsame hplain =>
    rw [List.mem_append, not_or] at hslash hnul
    have hlength : mark.length = 8 := by
      rw [eqIgnoreAsciiCase, beq_iff_eq] at hsame
      have hlengths := congrArg List.length hsame
      rwa [toAsciiLowercase, List.length_map] at hlengths
    rw [stripLiteralMark, List.take_left' hlength, if_pos hsame, List.drop_left' hlength] at h
    have hcase : Respelled (mark ++ v) ("\\\\?\\UNC\\".toList ++ v) := by
      refine .letterCase ?_
      rw [toAsciiLowercase, List.map_append, toAsciiLowercase, List.map_append]
      exact congrArg (· ++ v.map Char.toLower) (eq_of_beq hsame)
    have hslash' : '/' ∉ "\\\\".toList ++ v := by
      rw [List.mem_append, not_or]
      exact ⟨by decide, hslash.2⟩
    have hback : Respelled ("\\\\".toList ++ v) ("\\\\?\\UNC\\".toList ++ v) := by
      refine .uncMark ?_
      rw [backslashes_of_not_mem hslash', hplain]
    exact .trans _ _ _ (.rel _ _ hcase) (.trans _ _ _ (.symm _ _ (.rel _ _ hback))
      (server_related hslash.2 hnul.2 hplain h hmark))

/-! ## Keys of keys -/

def weight (cs : List Text) : Nat := (cs.map fun c => c.length + 1).sum

theorem weight_cons (c : Text) (cs : List Text) : weight (c :: cs) = c.length + 1 + weight cs :=
  List.sum_cons

theorem spell_length {cs : List Text} (hne : cs ≠ []) : (spell cs).length + 1 = weight cs := by
  induction cs with
  | nil => exact absurd rfl hne
  | cons c cs ih =>
    cases cs with
    | nil => rfl
    | cons next cs =>
      have hrest := ih (List.cons_ne_nil next cs)
      rw [spell_cons_cons, List.length_append, List.length_cons, hrest, weight_cons c]
      omega

theorem weight_append (xs ys : List Text) : weight (xs ++ ys) = weight xs + weight ys := by
  rw [weight, List.map_append, List.sum_append, weight, weight]

theorem weight_pushComponent {depth : Nat} {parts parts' : List Text} {c : Text}
    (h : pushComponent depth parts c = some parts') :
    weight parts' ≤ weight parts + (c.length + 1) := by
  rw [pushComponent] at h
  split_ifs at h with hskip hparent hshort
  · obtain rfl := Option.some_inj.mp h
    exact Nat.le_add_right _ _
  · obtain rfl := Option.some_inj.mp h
    have hle := ((List.dropLast_sublist parts).map fun c : Text => c.length + 1).sum_le_sum
      fun _ _ => Nat.zero_le _
    exact Nat.le_trans hle (Nat.le_add_right _ _)
  · dsimp only at h
    split_ifs at h
    obtain rfl := Option.some_inj.mp h
    have hle := (List.rdropWhile_prefix (fun d => d == ' ' || d == '.') c).length_le
    rw [weight_append]
    refine Nat.add_le_add_left ?_ _
    rw [weight, List.map_singleton, List.sum_singleton, toAsciiLowercase, List.length_map]
    exact Nat.succ_le_succ hle

theorem weight_foldlM {depth : Nat} {cs : List Text} : ∀ {parts parts' : List Text},
    cs.foldlM (pushComponent depth) parts = some parts' →
      weight parts' ≤ weight parts + weight cs := by
  induction cs with
  | nil =>
    intro parts parts' h
    obtain rfl := Option.some_inj.mp h
    exact Nat.le_add_right _ _
  | cons c cs ih =>
    intro parts parts' h
    obtain ⟨between, hpush, hrest⟩ := Option.bind_eq_some_iff.mp h
    have hfirst := weight_pushComponent hpush
    have hlast := ih hrest
    rw [weight_cons]
    omega

theorem weight_splitOn (s : Text) : weight (splitOn '\\' s) = s.length + 1 := by
  rw [← spell_length (splitOn_ne_nil '\\' s), spell, join_splitOn]

theorem length_keyOfPlain {plain k : Text} (h : keyOfPlain plain = some k) :
    k.length ≤ plain.length := by
  obtain ⟨parts, hparts, hk⟩ := Option.bind_eq_some_iff.mp h
  split_ifs at hk with hempty hunc
  · obtain ⟨v, rfl⟩ := List.isPrefixOf_iff_prefix.mp hunc
    have hweight : weight parts ≤ weight [] + weight (splitOn '\\' v) := weight_foldlM hparts
    have hspell := spell_length hempty
    rw [weight_splitOn] at hweight
    rw [← Option.some_inj.mp hk, List.length_append, List.length_append]
    change weight parts ≤ 0 + (v.length + 1) at hweight
    omega
  · have hweight : weight parts ≤ weight [] + weight (splitOn '\\' plain) := weight_foldlM hparts
    have hspell := spell_length hempty
    rw [weight_splitOn] at hweight
    rw [← Option.some_inj.mp hk]
    change weight parts ≤ 0 + (plain.length + 1) at hweight
    omega

theorem eqIgnoreAsciiCase_length {s mark : Text} (h : eqIgnoreAsciiCase s mark = true) :
    s.length = mark.length := by
  rw [eqIgnoreAsciiCase, beq_iff_eq] at h
  have hlengths := congrArg List.length h
  rwa [toAsciiLowercase, toAsciiLowercase, List.length_map, List.length_map] at hlengths

theorem length_stripLiteralMark {value plain : Text} (h : stripLiteralMark value = some plain) :
    plain.length ≤ value.length ∧
      ("\\\\?\\".toList <+: value → plain.length < value.length) := by
  have hmark : ∀ {n : Nat} {mark : Text}, eqIgnoreAsciiCase (value.take n) mark = true →
      mark.length ≤ value.length := fun h => by
    rw [← eqIgnoreAsciiCase_length h, List.length_take]
    exact Nat.min_le_right _ _
  rw [stripLiteralMark] at h
  split_ifs at h with hunc hdrive
  · have hlength : 8 ≤ value.length := hmark hunc
    have hplain : plain.length = 2 + (value.length - 8) := by
      rw [← Option.some_inj.mp h, List.length_append, List.length_drop]
      rfl
    exact ⟨by omega, fun _ => by omega⟩
  · have hlength : 4 ≤ value.length := hmark hdrive
    have hplain : plain.length = value.length - 4 := by
      rw [← Option.some_inj.mp h, List.length_drop]
    exact ⟨by omega, fun _ => by omega⟩
  · refine ⟨(congrArg List.length (Option.some_inj.mp h)).ge, fun hprefix => absurd ?_ hdrive⟩
    obtain ⟨rest, rfl⟩ := hprefix
    rfl

theorem bare_isInfix (path : Text) : bare path <:+: path := by
  have htrim : ∀ (p : Char → Bool) (s : Text), (s.dropWhile p).rdropWhile p <:+: s := fun p s =>
    (List.rdropWhile_prefix p _).isInfix.trans (List.dropWhile_suffix p).isInfix
  exact (htrim (fun c => quotes.contains c) (trim path)).trans (htrim isWhitespace path)

theorem clean_of_canonical {k : Text} (h : canonicalInstallerLogPath k = some k) :
    bare k = k ∧ ¬ "\\\\?\\".toList <+: k := by
  rw [canonicalInstallerLogPath_eq, keyOf_eq] at h
  split_ifs at h with hnul
  obtain ⟨plain, hplain, hk⟩ := Option.bind_eq_some_iff.mp h
  obtain ⟨hle, hlt⟩ := length_stripLiteralMark hplain
  have hkey := length_keyOfPlain hk
  have hbare := (bare_isInfix k).length_le
  have hlength : (backslashes (bare k)).length = (bare k).length := List.length_map ..
  have hself : bare k = k := (bare_isInfix k).eq_of_length (by omega)
  refine ⟨hself, fun hmark => ?_⟩
  rw [hself] at hlt hlength hle
  have hmark' : "\\\\?\\".toList <+: backslashes k := by
    obtain ⟨rest, rfl⟩ := hmark
    exact ⟨backslashes rest, (backslashes_append "\\\\?\\".toList rest).symm⟩
  have hshort := hlt hmark'
  omega

theorem parts_foldlM {depth : Nat} {cs : List Text} (hcs : ∀ c ∈ cs, IsComponent c ∧ '\x00' ∉ c) :
    ∀ {parts parts' : List Text}, (∀ part ∈ parts, IsPart part) →
      cs.foldlM (pushComponent depth) parts = some parts' → ∀ part ∈ parts', IsPart part := by
  induction cs with
  | nil =>
    intro parts parts' hparts h
    obtain rfl := Option.some_inj.mp h
    exact hparts
  | cons c cs ih =>
    intro parts parts' hparts h
    obtain ⟨between, hpush, hrest⟩ := Option.bind_eq_some_iff.mp h
    refine ih (fun d hd => hcs d (List.mem_cons_of_mem c hd)) ?_ hrest
    obtain ⟨hc, hnul⟩ := hcs c List.mem_cons_self
    by_cases hname : c.rdropWhile isTail = []
    · rw [pushComponent] at hpush
      have hname' : c.rdropWhile (fun d => d == ' ' || d == '.') = [] := hname
      dsimp only at hpush
      rw [if_pos hname'] at hpush
      split_ifs at hpush
      · exact Option.some_inj.mp hpush ▸ hparts
      · exact Option.some_inj.mp hpush ▸
          fun part hpart => hparts part (List.mem_of_mem_dropLast hpart)
    · rw [pushComponent_name hname] at hpush
      obtain rfl := Option.some_inj.mp hpush
      intro part hpart
      rcases List.mem_append.mp hpart with hpart | hpart
      · exact hparts part hpart
      · rw [List.mem_singleton.mp hpart]
        exact (IsName.mk hc hname hnul).part

theorem mem_stripLiteralMark {value plain : Text} (h : stripLiteralMark value = some plain)
    {c : Char} (hc : c ∈ plain) : c = '\\' ∨ c ∈ value := by
  rw [stripLiteralMark] at h
  split_ifs at h
  · rw [← Option.some_inj.mp h] at hc
    rcases List.mem_append.mp hc with hc | hc
    · exact .inl (List.eq_of_mem_replicate (n := 2) hc)
    · exact .inr (List.mem_of_mem_drop hc)
  · exact .inr (List.mem_of_mem_drop (Option.some_inj.mp h ▸ hc))
  · exact .inr (Option.some_inj.mp h ▸ hc)

theorem parts_of_key {path k : Text} (h : canonicalInstallerLogPath path = some k) :
    ∃ parts, parts ≠ [] ∧ (∀ part ∈ parts, IsPart part) ∧
      (k = spell parts ∨ k = '\\' :: '\\' :: spell parts) := by
  rw [canonicalInstallerLogPath_eq, keyOf_eq] at h
  split_ifs at h with hnul
  obtain ⟨plain, hplain, hk⟩ := Option.bind_eq_some_iff.mp h
  obtain ⟨parts, hparts, hk⟩ := Option.bind_eq_some_iff.mp hk
  have hkept : ∀ d, d ≠ '\\' → d ∉ backslashes (bare path) → d ∉ plain := fun d hd hnot hmem =>
    (mem_stripLiteralMark hplain hmem).elim hd hnot
  have hslash := hkept '/' (by decide) (not_mem_backslashes _)
  have hnul' := hkept '\x00' (by decide) hnul
  have hall : ∀ part ∈ parts, IsPart part := by
    refine parts_foldlM (fun c hc => ⟨isComponent_of_mem_splitOn hslash c hc, fun hmem => ?_⟩)
      (fun part hpart => absurd hpart List.not_mem_nil) hparts
    exact hnul' (mem_of_mem_splitOn hc _ hmem).1
  split_ifs at hk with hempty hunc
  · exact ⟨parts, hempty, hall, .inr (Option.some_inj.mp hk).symm⟩
  · exact ⟨parts, hempty, hall, .inl (Option.some_inj.mp hk).symm⟩

theorem keyOf_parts {cs parts : List Text} (hcs : ∀ c ∈ cs, IsComponent c ∧ '\x00' ∉ c)
    (hplain : stripLiteralMark (spell cs) = some (spell cs)) (hne : parts ≠ [])
    (hwalk : walk (minimumDepth (spell cs)) cs = some parts) :
    keyOf (spell cs) =
      if isUnc (spell cs) then some ("\\\\".toList ++ spell parts) else some (spell parts) := by
  have hcomponents : ∀ c ∈ cs, IsComponent c := fun c hc => (hcs c hc).1
  have hnul : '\x00' ∉ spell cs := by
    rw [nul_mem_spell]
    rintro ⟨c, hc, hmem⟩
    exact (hcs c hc).2 hmem
  rw [keyOf_spell hcomponents hplain, if_neg hnul, keyOfPlain, walk_splitOn_spell hcomponents,
    hwalk, Option.bind_some, if_neg hne]

theorem IsPart.head {part : Text} (h : IsPart part) (parts : List Text) :
    ∃ c rest, c ≠ '\\' ∧ spell (part :: parts) = c :: rest := by
  obtain ⟨tail, htail⟩ := spell_cons part parts
  have hnamed := h.name.named
  have hcomponent := h.name.component.1
  cases part with
  | nil => exact absurd rfl hnamed
  | cons c part =>
    refine ⟨c, part ++ tail, ?_, htail.symm⟩
    rintro rfl
    exact hcomponent List.mem_cons_self

theorem canonical_of_clean {path k : Text} (h : canonicalInstallerLogPath path = some k)
    (hbare : bare k = k) (hmark : ¬ "\\\\?\\".toList <+: k) :
    canonicalInstallerLogPath k = some k := by
  obtain ⟨parts, hne, hall, hk⟩ := parts_of_key h
  rw [canonicalInstallerLogPath_eq, hbare]
  have hcs : ∀ c ∈ parts, IsComponent c ∧ '\x00' ∉ c :=
    fun c hc => ⟨(hall c hc).name.component, (hall c hc).name.nul⟩
  obtain ⟨part, parts', rfl⟩ := List.exists_cons_of_ne_nil hne
  have hpart := hall part List.mem_cons_self
  rcases hk with rfl | rfl
  · obtain ⟨c, rest, hc, hspell⟩ := hpart.head parts'
    have hplain := stripLiteralMark_of_head hc rest
    rw [← hspell] at hplain
    have hunc : isUnc (spell (part :: parts')) = false := by
      rw [hspell, isUnc, Bool.eq_false_iff]
      intro hprefix
      exact hc (List.cons_prefix_cons.mp (List.isPrefixOf_iff_prefix.mp hprefix)).1.symm
    rw [keyOf_parts hcs hplain hne (foldlM_parts hall _ []), hunc]
    rfl
  · rw [← spell_two hne] at hmark ⊢
    have hcs' : ∀ c ∈ [[], []] ++ (part :: parts'), IsComponent c ∧ '\x00' ∉ c := by
      intro c hc
      rcases List.mem_append.mp hc with hc | hc
      · rw [List.eq_of_mem_replicate (n := 2) hc]
        exact ⟨isComponent_nil, List.not_mem_nil⟩
      · exact hcs c hc
    have hplain := stripLiteralMark_eq_self hmark (by
      rw [spell_two hne]
      exact hpart.not_device parts')
    rw [keyOf_parts hcs' hplain hne (foldlM_parts hall _ [])]
    rw [spell_two hne]
    rfl

/-- The key of a path is its own key exactly when nothing is taken off it; respellings of
a path have its key; and two absolute paths with one key are respellings of each other,
unless the key begins with a mark. -/
theorem canonicalInstallerLogPath_normal :
    (∀ path k, canonicalInstallerLogPath path = some k →
      (canonicalInstallerLogPath k = some k ↔ bare k = k ∧ ¬ "\\\\?\\".toList <+: k)) ∧
    (∀ path path', Relation.EqvGen Respelled (bare path) (bare path') →
      canonicalInstallerLogPath path = canonicalInstallerLogPath path') ∧
    (∀ path path' k, canonicalInstallerLogPath path = some k →
      canonicalInstallerLogPath path' = some k → IsAbsolute (bare path) →
      IsAbsolute (bare path') → ¬ "\\\\?\\".toList <+: k →
      Relation.EqvGen Respelled (bare path) (bare path')) := by
  refine ⟨fun path k h => ?_, fun path path' h => ?_, fun path path' k h h' habs habs' hmark => ?_⟩
  · exact ⟨clean_of_canonical, fun hclean => canonical_of_clean h hclean.1 hclean.2⟩
  · rw [canonicalInstallerLogPath_eq, canonicalInstallerLogPath_eq, keyOf_related h]
  · rw [canonicalInstallerLogPath_eq] at h h'
    exact .trans _ _ _ (absolute_related habs h hmark) (.symm _ _ (absolute_related habs' h' hmark))

theorem canonicalInstallerLogPath_normal_marked :
    Relation.EqvGen Respelled (bare "\"C:\\Temp\\a.log\"".toList)
      (bare "\\\\?\\C:/TEMP/.//A.log. ".toList) := by
  have hdrive : backslashes (bare "\"C:\\Temp\\a.log\"".toList) = "C:\\Temp\\a.log".toList := by
    decide +kernel
  have hmarked : backslashes (bare "\\\\?\\C:/TEMP/.//A.log. ".toList) =
      "\\\\?\\".toList ++ "C:\\TEMP\\.\\\\A.log.".toList := by decide +kernel
  refine canonicalInstallerLogPath_normal.2.2 _ _ "c:\\temp\\a.log".toList (by decide +kernel)
    (by decide +kernel) ?_ ?_ (by decide)
  · rw [IsAbsolute, hdrive]
    exact .drive ⟨'C', _, rfl, rfl⟩
  · rw [IsAbsolute, hmarked]
    exact .driveMark ⟨'C', _, rfl, rfl⟩

/-- A blank inside quotes stays in a key and not in the key of the key; a name that ends
with a quote has the key of the name without it; only letters of ASCII are folded; and a
dot in front of a server makes it a device. -/
theorem canonicalInstallerLogPath_not_normal :
    (canonicalInstallerLogPath "\" C:\\a.log\"".toList = some " c:\\a.log".toList ∧
      canonicalInstallerLogPath " c:\\a.log".toList ≠ some " c:\\a.log".toList) ∧
    canonicalInstallerLogPath "C:\\a'".toList = canonicalInstallerLogPath "C:\\a".toList ∧
    canonicalInstallerLogPath "C:\\É".toList ≠ canonicalInstallerLogPath "C:\\é".toList ∧
    canonicalInstallerLogPath "\\\\.\\srv\\a".toList ≠
      canonicalInstallerLogPath "\\\\srv\\a".toList := by
  decide +kernel

end Esp
end CmTrace
