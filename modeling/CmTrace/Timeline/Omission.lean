import CmTrace.Timeline.Unambiguous

/-!
# What correlation leaves out

Members, relations, edges and gaps are each cut at a limit of their own.  A pair
that should have an edge has one, or a gap tells of the limit that took it; and
when the gaps themselves are cut, the last of them tells how many are missing.
-/

namespace CmTrace
namespace Timeline

open Std Text Collections

/-! ## Pairs that are related or reported -/

def ExpansionLimit (reason : Text) : Prop :=
  reason = relationBudgetReason ∨ reason = memberLimitReason "secondary".toList ∨
    ∃ kind : TimelineCorrelationKeyKind, reason = memberLimitReason ("exact ".toList ++ kind.debug)

def Keyed (index : Index Relation TimelineCorrelationKey relationOrder keyOrder) (r : Relation) :
    Prop :=
  ∃ k, k ∈ index.values r

namespace Expansion

def Limited (e : Expansion) : Prop := ∃ gap ∈ e.fanoutGaps, ExpansionLimit gap.2

/-- An expansion that goes on from another. -/
structure Grows (e e' : Expansion) : Prop where
  gaps : ∀ gap ∈ e.fanoutGaps, gap ∈ e'.fanoutGaps
  exact : ∀ r, Keyed e.relationKeys r → Keyed e'.relationKeys r
  secondary : ∀ r, Keyed e.candidateRelations r → Keyed e'.candidateRelations r
  ordered : ∀ r, Keyed e'.candidateRelations r →
    Keyed e.candidateRelations r ∨ textOrder r.1 r.2 = .lt

theorem Grows.refl (e : Expansion) : Grows e e :=
  ⟨fun _ h => h, fun _ h => h, fun _ h => h, fun _ h => .inl h⟩

theorem Grows.trans {a b c : Expansion} (h : Grows a b) (h' : Grows b c) : Grows a c :=
  { gaps      := fun gap hgap => h'.gaps gap (h.gaps gap hgap)
    exact     := fun r hr => h'.exact r (h.exact r hr)
    secondary := fun r hr => h'.secondary r (h.secondary r hr)
    ordered   := fun r hr => (h'.ordered r hr).elim (h.ordered r) .inr }

theorem Grows.limited {e e' : Expansion} (h : Grows e e') (hlimited : e.Limited) : e'.Limited := by
  obtain ⟨gap, hgap, hreason⟩ := hlimited
  exact ⟨gap, h.gaps gap hgap, hreason⟩

theorem mem_foldl_gaps (reason : Text) (ids : List Text) (gaps : Gaps) (gap : Text × Text) :
    gap ∈ ids.foldl (fun gaps id => gaps.insert (id, reason)) gaps ↔
      (∃ id ∈ ids, (id, reason) = gap) ∨ gap ∈ gaps := by
  induction ids generalizing gaps with
  | nil => simp
  | cons id ids ih =>
    rw [List.foldl_cons, ih, TreeSet.mem_insert, LawfulEqCmp.compare_eq_iff_eq, or_left_comm,
      ← or_assoc]
    simp only [List.mem_cons, exists_eq_or_imp]

theorem leaveOut_grows (e : Expansion) (reason : Text) (ids : List Text) :
    Grows e (e.leaveOut reason ids) :=
  { gaps      := fun gap hgap => (mem_foldl_gaps reason ids e.fanoutGaps gap).mpr (.inr hgap)
    exact     := fun _ h => h
    secondary := fun _ h => h
    ordered   := fun _ h => .inl h }

theorem leaveOut_limited (e : Expansion) {reason : Text} (h : ExpansionLimit reason) {ids : List Text}
    (hids : ids ≠ []) : (e.leaveOut reason ids).Limited := by
  obtain ⟨id, hid⟩ := List.exists_mem_of_ne_nil ids hids
  exact ⟨(id, reason), (mem_foldl_gaps reason ids e.fanoutGaps _).mpr (.inl ⟨id, hid, rfl⟩), h⟩

def keysOf (ordered : List TimelineCorrelationObservation) (key : GroupKey) (id : Text) :
    List TimelineCorrelationKey :=
  ((byId ordered id).map fun o => o.exactKeys.filter fun k =>
    correlationKind k.kind == key.2.1 && k.value == key.2.2).getD []

theorem keyed_foldl_add (keys : List TimelineCorrelationKey) (pair : Relation)
    (index : Index Relation TimelineCorrelationKey relationOrder keyOrder) (r : Relation) :
    Keyed (keys.foldl (fun index k => index.add pair k) index) r ↔
      (r = pair ∧ keys ≠ []) ∨ Keyed index r := by
  induction keys generalizing index with
  | nil => simp
  | cons k keys ih =>
    have hadd : Keyed (index.add pair k) r ↔ r = pair ∨ Keyed index r := by
      rw [Keyed]
      simp only [Index.mem_values_add, exists_or, exists_and_left, exists_eq', and_true]
      exact or_congr_left eq_comm
    rw [List.foldl_cons, ih, hadd]
    constructor
    · rintro (⟨rfl, -⟩ | rfl | h)
      · exact .inl ⟨rfl, List.cons_ne_nil _ _⟩
      · exact .inl ⟨rfl, List.cons_ne_nil _ _⟩
      · exact .inr h
    · exact fun h => h.elim (fun h => .inr (.inl h.1)) fun h => .inr (.inr h)

theorem relateExact_grows (ordered : List TimelineCorrelationObservation) (key : GroupKey)
    (e : Expansion) (pair : Relation) : Grows e (relateExact ordered key e pair) :=
  { gaps      := fun _ h => h
    exact     := fun r h => (keyed_foldl_add _ pair e.relationKeys r).mpr (.inr h)
    secondary := fun _ h => h
    ordered   := fun _ h => .inl h }

theorem relateExact_keyed (ordered : List TimelineCorrelationObservation) (key : GroupKey)
    (e : Expansion) {pair : Relation} (h : keysOf ordered key pair.1 ≠ []) :
    Keyed (relateExact ordered key e pair).relationKeys pair :=
  (keyed_foldl_add _ pair e.relationKeys pair).mpr
    (.inl ⟨rfl, List.append_ne_nil_of_left_ne_nil h _⟩)

theorem relateWhile_spec (ordered : List TimelineCorrelationObservation) (key : GroupKey)
    (new : List Relation) (e : Expansion) (h : ∀ r ∈ new, keysOf ordered key r.1 ≠ []) :
    let related := relateWhile (relateExact ordered key) e new
    Grows e related.1 ∧ (related.2 = false → ∀ r ∈ new, Keyed related.1.relationKeys r) := by
  induction new generalizing e with
  | nil => exact ⟨.refl e, fun _ r hr => (by cases hr)⟩
  | cons pair new ih =>
    have hstep := relateExact_grows ordered key e pair
    have hpair := relateExact_keyed ordered key e (h pair (List.mem_cons_self ..))
    obtain ⟨hgrows, hall⟩ := ih (relateExact ordered key e pair) fun r hr =>
      h r (List.mem_cons_of_mem _ hr)
    rw [relateWhile]
    split_ifs
    · exact ⟨.refl e, fun h => (by cases h)⟩
    · refine ⟨hstep.trans hgrows, fun hdone => ?_⟩
      rw [List.forall_mem_cons]
      exact ⟨hgrows.exact pair hpair, hall hdone⟩

theorem exactGroup_spec (ordered : List TimelineCorrelationObservation) (e : Expansion)
    (g : ExactGroup) (h : ∀ id ∈ g.2, keysOf ordered g.1 id ≠ []) :
    Grows e (exactGroup ordered e g) ∧
      ((∀ r ∈ pairs g.2.toList, Keyed (exactGroup ordered e g).relationKeys r) ∨
        (exactGroup ordered e g).Limited) := by
  have hkeys : ∀ r ∈ pairs g.2.toList, keysOf ordered g.1 r.1 ≠ [] := fun r hr =>
    h r.1 ((mem_pairs_toList g.2 r).mp hr).1
  obtain ⟨hgrows, hall⟩ := relateWhile_spec ordered g.1 (pairs g.2.toList) e hkeys
  rw [exactGroup]
  dsimp only
  split_ifs with hsmall hlarge hzero hover htruncated
  · refine ⟨.refl e, .inl fun r hr => ?_⟩
    have hr' := (mem_pairs_toList g.2 r).mp hr
    exact absurd (two_le_length_of_mem hr'.1 hr'.2.1 (ne_of_textOrder_lt hr'.2.2)) (by omega)
  · exact ⟨leaveOut_grows e _ _, .inr (leaveOut_limited e (.inr (.inr ⟨_, rfl⟩))
      (List.ne_nil_of_length_pos (by omega)))⟩
  · exact ⟨leaveOut_grows e _ _, .inr (leaveOut_limited e (.inl rfl)
      (List.ne_nil_of_length_pos (by omega)))⟩
  · have hleft := leaveOut_grows e relationBudgetReason g.2.toList
    exact ⟨⟨hleft.gaps, hleft.exact, hleft.secondary, hleft.ordered⟩,
      .inr (leaveOut_limited e (.inl rfl) (List.ne_nil_of_length_pos (by omega)))⟩
  · exact ⟨hgrows.trans (leaveOut_grows _ _ _), .inr (leaveOut_limited _ (.inl rfl)
      (List.ne_nil_of_length_pos (by omega)))⟩
  · exact ⟨hgrows, .inl (hall (by simpa using htruncated))⟩

theorem foldl_exactGroup_spec (ordered : List TimelineCorrelationObservation)
    (groups : List ExactGroup) (e : Expansion)
    (h : ∀ g ∈ groups, ∀ id ∈ g.2, keysOf ordered g.1 id ≠ []) :
    Grows e (groups.foldl (exactGroup ordered) e) ∧
      ((∀ g ∈ groups, ∀ r ∈ pairs g.2.toList,
          Keyed (groups.foldl (exactGroup ordered) e).relationKeys r) ∨
        (groups.foldl (exactGroup ordered) e).Limited) := by
  induction groups generalizing e with
  | nil => exact ⟨.refl e, .inl fun g hg => (by cases hg)⟩
  | cons g groups ih =>
    obtain ⟨hgrows, hall⟩ := exactGroup_spec ordered e g (h g (List.mem_cons_self ..))
    obtain ⟨hgrows', hall'⟩ := ih (exactGroup ordered e g) fun g hg =>
      h g (List.mem_cons_of_mem _ hg)
    rw [List.foldl_cons]
    refine ⟨hgrows.trans hgrows', ?_⟩
    rcases hall with hall | hlimited
    · refine hall'.imp_left fun hall' => ?_
      rw [List.forall_mem_cons]
      exact ⟨fun r hr => hgrows'.exact r (hall r hr), hall'⟩
    · exact .inr (hgrows'.limited hlimited)

theorem relateSecondary_spec (key : Text × Text) (new : List Relation) (e : Expansion)
    (h : ∀ r ∈ new, textOrder r.1 r.2 = .lt) :
    let related := relateSecondary key e new
    Grows e related.1 ∧ (related.2 = false → ∀ r ∈ new, e.related r.1 = false →
      e.related r.2 = false → Keyed related.1.candidateRelations r) := by
  induction new generalizing e with
  | nil => exact ⟨.refl e, fun _ r hr => (by cases hr)⟩
  | cons pair new ih =>
    have hnew := fun r hr => h r (List.mem_cons_of_mem pair hr)
    rw [relateSecondary]
    dsimp only
    split_ifs with hleft hbudget hright
    · refine ⟨(ih e hnew).1, fun hdone => ?_⟩
      rw [List.forall_mem_cons]
      exact ⟨fun h => absurd hleft (by rw [h]; decide), (ih e hnew).2 hdone⟩
    · exact ⟨.refl e, fun h => (by cases h)⟩
    · refine ⟨(ih e hnew).1, fun hdone => ?_⟩
      rw [List.forall_mem_cons]
      exact ⟨fun _ h => absurd hright (by rw [h]; decide), (ih e hnew).2 hdone⟩
    · obtain ⟨hgrows, hall⟩ := ih { e with
        relationBudget     := e.relationBudget - 1
        candidateRelations := e.candidateRelations.add pair
          { kind := .secondary, value := key.1 ++ '|' :: key.2 } } hnew
      have hadd := keyed_foldl_add
        [{ kind := .secondary, value := key.1 ++ '|' :: key.2 }] pair e.candidateRelations
      have hstep : Grows e { e with
          relationBudget     := e.relationBudget - 1
          candidateRelations := e.candidateRelations.add pair
            { kind := .secondary, value := key.1 ++ '|' :: key.2 } } :=
        { gaps      := fun _ h => h
          exact     := fun _ h => h
          secondary := fun r hr => (hadd r).mpr (.inr hr)
          ordered   := fun r hr => ((hadd r).mp hr).symm.imp_right fun hpair => by
            rw [hpair.1]
            exact h pair (List.mem_cons_self ..) }
      refine ⟨hstep.trans hgrows, fun hdone => ?_⟩
      rw [List.forall_mem_cons]
      exact ⟨fun _ _ => hgrows.secondary pair
        ((hadd pair).mpr (.inl ⟨rfl, List.cons_ne_nil _ _⟩)), hall hdone⟩

theorem secondaryGroup_spec (e : Expansion) (g : (Text × Text) × TreeSet Text textOrder) :
    Grows e (secondaryGroup e g) ∧
      ((∀ r ∈ pairs g.2.toList, e.related r.1 = false → e.related r.2 = false →
          Keyed (secondaryGroup e g).candidateRelations r) ∨ (secondaryGroup e g).Limited) := by
  obtain ⟨hgrows, hall⟩ := relateSecondary_spec g.1 (pairs g.2.toList) e fun r hr =>
    ((mem_pairs_toList g.2 r).mp hr).2.2
  rw [secondaryGroup]
  dsimp only
  split_ifs with hsmall hlarge hzero htruncated
  · refine ⟨.refl e, .inl fun r hr => ?_⟩
    have hr' := (mem_pairs_toList g.2 r).mp hr
    exact absurd (two_le_length_of_mem hr'.1 hr'.2.1 (ne_of_textOrder_lt hr'.2.2)) (by omega)
  · exact ⟨leaveOut_grows e _ _, .inr (leaveOut_limited e (.inr (.inl rfl))
      (List.ne_nil_of_length_pos (by omega)))⟩
  · exact ⟨leaveOut_grows e _ _, .inr (leaveOut_limited e (.inl rfl)
      (List.ne_nil_of_length_pos (by omega)))⟩
  · exact ⟨hgrows.trans (leaveOut_grows _ _ _), .inr (leaveOut_limited _ (.inl rfl)
      (List.ne_nil_of_length_pos (by omega)))⟩
  · exact ⟨hgrows, .inl (hall (by simpa using htruncated))⟩

theorem foldl_secondaryGroup_spec (groups : List ((Text × Text) × TreeSet Text textOrder))
    (e : Expansion) :
    Grows e (groups.foldl secondaryGroup e) ∧
      ((∀ g ∈ groups, ∀ r ∈ pairs g.2.toList, e.related r.1 = false → e.related r.2 = false →
          Keyed (groups.foldl secondaryGroup e).candidateRelations r) ∨
        (groups.foldl secondaryGroup e).Limited) := by
  induction groups generalizing e with
  | nil => exact ⟨.refl e, .inl fun g hg => (by cases hg)⟩
  | cons g groups ih =>
    obtain ⟨hgrows, hall⟩ := secondaryGroup_spec e g
    obtain ⟨hgrows', hall'⟩ := ih (secondaryGroup e g)
    -- a secondary group gives no origin an exact candidate
    have hrelated : (secondaryGroup e g).related = e.related := by
      have hsame := (foldl_secondaryGroup [g] e fun g' hg' x hx => by
        rw [List.mem_singleton.mp hg'] at hx
        exact TreeSet.mem_toList.mpr hx).exactCandidates
      funext id
      rw [related, related]
      exact congrArg (fun index : Index Text Text textOrder textOrder =>
        !(index.values id).isEmpty) hsame
    rw [hrelated] at hall'
    rw [List.foldl_cons]
    refine ⟨hgrows.trans hgrows', ?_⟩
    rcases hall with hall | hlimited
    · refine hall'.imp_left fun hall' => ?_
      rw [List.forall_mem_cons]
      exact ⟨fun r hr hleft hright => hgrows'.secondary r (hall r hr hleft hright), hall'⟩
    · exact .inr (hgrows'.limited hlimited)

end Expansion

/-! ## Pairs of origins -/

def SharesSecondary (a b : TimelineCorrelationObservation) : Prop :=
  ∃ key ∈ a.secondaryGroupKeys, key ∈ b.secondaryGroupKeys

section

variable (observations : List TimelineCorrelationObservation)

theorem byId_eq {o : TimelineCorrelationObservation} (h : o ∈ disambiguateObservationIds observations) :
    byId (disambiguateObservationIds observations) o.originId = some o := by
  rw [byId]
  cases hfound : (disambiguateObservationIds observations).find?
      fun o' => o'.originId == o.originId with
  | none => exact absurd (List.find?_eq_none.mp hfound o h) (by simp)
  | some o' =>
    have hid := List.find?_some hfound
    rw [originId_injective (List.mem_of_find?_eq_some hfound) h (eq_of_beq hid)]

theorem keysOf_ne_nil {g : ExactGroup}
    (hg : g ∈ (exactGroups (disambiguateObservationIds observations)).toList) :
    ∀ id ∈ g.2, Expansion.keysOf (disambiguateObservationIds observations) g.1 id ≠ [] := by
  intro id hid
  rw [← Index.values_of_mem_toList hg, mem_exactGroups] at hid
  obtain ⟨o, ho, hkey, rfl⟩ := hid
  rw [TimelineCorrelationObservation.exactGroupKeys] at hkey
  cases hmachine : o.normalizedMachine with
  | none =>
    rw [hmachine] at hkey
    cases hkey
  | some machine =>
    rw [hmachine] at hkey
    obtain ⟨k, hk, hgroup⟩ := List.mem_map.mp hkey
    rw [Expansion.keysOf, byId_eq observations ho, Option.map_some, Option.getD_some]
    refine List.ne_nil_of_mem (a := k) (List.mem_filter.mpr ⟨hk, ?_⟩)
    rw [← hgroup]
    simp

theorem expand_grows : Expansion.Grows {} (expand (disambiguateObservationIds observations)) :=
  (Expansion.foldl_exactGroup_spec _ _ {} fun _ hg => keysOf_ne_nil observations hg).1.trans
    (Expansion.foldl_secondaryGroup_spec _ _).1

theorem exact_keyed_or_limited {a b : TimelineCorrelationObservation}
    (ha : a ∈ disambiguateObservationIds observations)
    (hb : b ∈ disambiguateObservationIds observations) (hlt : textOrder a.originId b.originId = .lt)
    (h : SharesExact a b) :
    Keyed (expand (disambiguateObservationIds observations)).relationKeys (a.originId, b.originId) ∨
      (expand (disambiguateObservationIds observations)).Limited := by
  obtain ⟨g, hg, hag, hbg⟩ := (together_exactGroups ha hb).mpr h
  have hgrows := (Expansion.foldl_secondaryGroup_spec
    (secondaryGroups (disambiguateObservationIds observations)).toList
    ((exactGroups (disambiguateObservationIds observations)).toList.foldl
      (Expansion.exactGroup (disambiguateObservationIds observations)) {})).1
  rcases (Expansion.foldl_exactGroup_spec (disambiguateObservationIds observations) _ {}
    fun _ hg => keysOf_ne_nil observations hg).2 with hall | hlimited
  · exact .inl (hgrows.exact _ (hall g hg _ ((mem_pairs_toList g.2 _).mpr ⟨hag, hbg, hlt⟩)))
  · exact .inr (hgrows.limited hlimited)

/-- Two origins with a secondary key in common and no exact candidate are related,
or a gap tells why not. -/
theorem secondary_keyed_or_limited {a b : TimelineCorrelationObservation}
    (ha : a ∈ disambiguateObservationIds observations)
    (hb : b ∈ disambiguateObservationIds observations) (hlt : textOrder a.originId b.originId = .lt)
    (h : SharesSecondary a b)
    (hleft : (expand (disambiguateObservationIds observations)).related a.originId = false)
    (hright : (expand (disambiguateObservationIds observations)).related b.originId = false) :
    Keyed (expand (disambiguateObservationIds observations)).candidateRelations
        (a.originId, b.originId) ∨
      (expand (disambiguateObservationIds observations)).Limited := by
  obtain ⟨key, hka, hkb⟩ := h
  have hag := (mem_secondaryGroups _ key a.originId).mpr ⟨a, ha, hka, rfl⟩
  have hbg := (mem_secondaryGroups _ key b.originId).mpr ⟨b, hb, hkb, rfl⟩
  have hg := Index.mem_toList_of_mem_values hag
  have hsame := (expand_passesOver (disambiguateObservationIds observations)).exactCandidates
  rw [Expansion.related, hsame] at hleft hright
  exact (Expansion.foldl_secondaryGroup_spec
    (secondaryGroups (disambiguateObservationIds observations)).toList _).2.imp_left fun hall =>
      hall _ hg _ ((mem_pairs_toList _ _).mpr ⟨hag, hbg, hlt⟩) hleft hright

/-! ## Relations -/

/-- The relations in their order have distinct pairs, each in the order of ids. -/
structure Distinct (relations : List Related) : Prop where
  ordered : ∀ r ∈ relations, textOrder r.left r.right = .lt
  distinct : relations.Pairwise fun r s => (r.left, r.right) ≠ (s.left, s.right)

theorem exact_or_alone {r s : Related}
    (hr : r ∈ (expand (disambiguateObservationIds observations)).relations) (hexact : r.exact = true)
    (hs : s ∈ (expand (disambiguateObservationIds observations)).relations) (halone : s.exact = false) :
    (r.left, r.right) ≠ (s.left, s.right) := by
  intro h
  obtain ⟨hleft, -⟩ := Prod.mk.inj h
  have hsound := related_sound _ hr
  have htogether := hsound.exact hexact
  rw [hleft] at htogether
  have hne := hsound.distinct
  rw [hleft] at hne
  exact ((related_sound _ hs).secondary halone).2.2 r.right (.inl ⟨htogether, hne⟩)

theorem relations_distinct : Distinct (expand (disambiguateObservationIds observations)).relations := by
  have hgrows := expand_grows observations
  have hexact := Expansion.foldl_exactGroup (disambiguateObservationIds observations)
    (exactGroups (disambiguateObservationIds observations)).toList {}
  have hpasses := expand_passesOver (disambiguateObservationIds observations)
  have hkeys : ∀ {A : Type} (index : TreeMap Relation A relationOrder) (make : Relation × A → Related),
      (∀ p, ((make p).left, (make p).right) = p.1) →
      (index.toList.map make).Pairwise fun r s => (r.left, r.right) ≠ (s.left, s.right) := by
    intro A index make hmake
    rw [List.pairwise_map]
    refine TreeMap.ordered_keys_toList.imp fun {p q} hlt => ?_
    rw [hmake, hmake]
    rintro heq
    have hself : relationOrder q.1 q.1 = .eq := ReflCmp.compare_self
    rw [heq, hself] at hlt
    cases hlt
  constructor
  · intro r hr
    rw [Expansion.relations, List.mem_append, List.mem_map, List.mem_map] at hr
    rcases hr with ⟨⟨pair, keys⟩, hp, rfl⟩ | ⟨⟨pair, keys⟩, hp, rfl⟩
    · rw [hpasses.relationKeys] at hp
      obtain ⟨k, hk⟩ := hexact.filled Index.filled_empty pair keys hp
      have hpair := hexact.relations pair k (by rwa [Index.values_of_mem_toList hp])
      rw [or_iff_right (Index.not_mem_values_empty pair k), Expansion.mem_pairsOf] at hpair
      obtain ⟨g, -, hpair⟩ := hpair
      exact ((mem_pairs_toList g.2 pair).mp hpair).2.2
    · obtain ⟨k, hk⟩ := hpasses.filled (by rw [hexact.secondary]; exact Index.filled_empty) pair keys hp
      have hkeyed : Keyed (expand (disambiguateObservationIds observations)).candidateRelations pair :=
        ⟨k, by rwa [Index.values_of_mem_toList hp]⟩
      refine (hgrows.ordered pair hkeyed).resolve_left ?_
      rintro ⟨k, hk⟩
      exact Index.not_mem_values_empty pair k hk
  · refine List.pairwise_append.mpr ⟨hkeys _ _ fun _ => rfl, hkeys _ _ fun _ => rfl,
      fun r hr s hs => exact_or_alone observations (List.mem_append_left _ hr) ?_
        (List.mem_append_right _ hs) ?_⟩
    · obtain ⟨_, -, rfl⟩ := List.mem_map.mp hr
      rfl
    · obtain ⟨_, -, rfl⟩ := List.mem_map.mp hs
      rfl

theorem mem_relations_of_exact {e : Expansion} {pair : Relation} (h : Keyed e.relationKeys pair) :
    ∃ r ∈ e.relations, r.left = pair.1 ∧ r.right = pair.2 := by
  obtain ⟨k, hk⟩ := h
  exact ⟨_, List.mem_append_left _ (List.mem_map_of_mem (Index.mem_toList_of_mem_values hk)), rfl, rfl⟩

theorem mem_relations_of_secondary {e : Expansion} {pair : Relation}
    (h : Keyed e.candidateRelations pair) :
    ∃ r ∈ e.relations, r.left = pair.1 ∧ r.right = pair.2 := by
  obtain ⟨k, hk⟩ := h
  exact ⟨_, List.mem_append_right _ (List.mem_map_of_mem (Index.mem_toList_of_mem_values hk)), rfl, rfl⟩

end

/-! ## Edges -/

theorem keyPart_append_inj {a b x y : Text} (h : keyPart a ++ x = keyPart b ++ y) :
    a = b ∧ x = y := by
  rw [keyPart, keyPart, List.append_assoc, List.append_assoc, List.cons_append, List.cons_append] at h
  have hcolon := fun n => not_mem_decimal (c := ':') (by decide) n
  have hsplit := congrArg (splitOnce ':') h
  rw [splitOnce_append (hcolon _), splitOnce_append (hcolon _), Option.some_inj, Prod.mk.injEq] at hsplit
  exact append_inj_of_byteLen hsplit.2 (decimal_injective hsplit.1)

def Emits (edge : TimelineCorrelationEdge) (r : Related) : Prop :=
  edge.fromId = r.left ∧ edge.toId = some r.right ∧
    ∃ rest, edge.id = "edge|".toList ++ (keyPart r.left ++ '|' :: (keyPart r.right ++ '|' :: rest))

theorem Emits.ends {edge edge' : TimelineCorrelationEdge} {r r' : Related} (h : Emits edge r)
    (h' : Emits edge' r') (hid : edge.id = edge'.id) : (r.left, r.right) = (r'.left, r'.right) := by
  obtain ⟨-, -, rest, hedge⟩ := h
  obtain ⟨-, -, rest', hedge'⟩ := h'
  rw [hedge, hedge', List.append_cancel_left_eq] at hid
  obtain ⟨hleft, hid⟩ := keyPart_append_inj hid
  obtain ⟨hright, -⟩ := keyPart_append_inj (List.cons.inj hid).2
  rw [hleft, hright]

theorem edge_id (ordered : List TimelineCorrelationObservation) (e : Expansion) (r : Related)
    (key : TimelineCorrelationKey) (omitted : Bool) : (r.edge ordered e key omitted).id =
      "edge|".toList ++ (keyPart r.left ++ '|' :: (keyPart r.right ++ '|' ::
        (key.kind.label ++ '|' :: keyPart key.value))) := by
  have hassoc : ∀ start a b c d : Text, start ++ a ++ '|' :: b ++ '|' :: c ++ '|' :: d =
      start ++ (a ++ '|' :: (b ++ '|' :: (c ++ '|' :: d))) := by
    intro start a b c d
    simp only [List.append_assoc, List.cons_append]
  exact hassoc _ (keyPart r.left) (keyPart r.right) key.kind.label (keyPart key.value)

theorem edge_emits (ordered : List TimelineCorrelationObservation) (e : Expansion) (r : Related)
    (key : TimelineCorrelationKey) (omitted : Bool) : Emits (r.edge ordered e key omitted) r :=
  ⟨rfl, rfl, key.kind.label ++ '|' :: keyPart key.value, edge_id ordered e r key omitted⟩

/-- The gap that tells of edges without room. -/
abbrev edgeBudgetGap : Text × Text := (correlationGapTruncationSource, correlationEdgeBudgetReason)

theorem emit_step (ordered : List TimelineCorrelationObservation) (e : Expansion) (out : Output)
    (r : Related) (h : out.edgeOutputTruncated = false) (hkey : r.key ≠ none) :
    let next := out.emit ordered e r
    (∀ gap ∈ out.fanoutGaps, gap ∈ next.fanoutGaps) ∧
      ((next.edgeOutputTruncated = true ∧ next.edges = out.edges ∧ edgeBudgetGap ∈ next.fanoutGaps) ∨
        (next.edgeOutputTruncated = false ∧ ∃ edge, next.edges = out.edges ++ [edge] ∧ Emits edge r)) := by
  obtain ⟨key, hkey⟩ := Option.ne_none_iff_exists'.mp hkey
  have hinsert : ∀ (gaps : Gaps) gap new, gap ∈ gaps → gap ∈ TreeSet.insert gaps new :=
    fun gaps gap new hgap => TreeSet.mem_insert.mpr (.inr hgap)
  have hself : ∀ (gaps : Gaps) new, new ∈ TreeSet.insert gaps new :=
    fun gaps new => TreeSet.mem_insert_self
  rw [Output.emit, h, if_neg Bool.false_ne_true, hkey]
  dsimp only
  split_ifs
  · exact ⟨fun gap hgap => hinsert _ _ _ (hinsert _ _ _ hgap), .inl ⟨rfl, rfl, hself _ _⟩⟩
  · exact ⟨fun gap hgap => hinsert _ _ _ hgap, .inr ⟨rfl, _, rfl, edge_emits ..⟩⟩
  · exact ⟨fun gap hgap => hinsert _ _ _ hgap, .inl ⟨rfl, rfl, hself _ _⟩⟩
  · exact ⟨fun gap hgap => hgap, .inr ⟨rfl, _, rfl, edge_emits ..⟩⟩
  · exact ⟨fun gap hgap => hinsert _ _ _ hgap, .inl ⟨rfl, rfl, hself _ _⟩⟩
  · exact ⟨fun gap hgap => hgap, .inr ⟨h, _, rfl, edge_emits ..⟩⟩

theorem foldl_emit_spec (ordered : List TimelineCorrelationObservation) (e : Expansion)
    (rs : List Related) (out : Output) (h : out.edgeOutputTruncated = false)
    (hkeys : ∀ r ∈ rs, r.key ≠ none) :
    let final := rs.foldl (Output.emit ordered e) out
    (∀ gap ∈ out.fanoutGaps, gap ∈ final.fanoutGaps) ∧
      ∃ new shown, final.edges = out.edges ++ new ∧ List.Forall₂ Emits new shown ∧ shown <+: rs ∧
        (shown = rs ∨ edgeBudgetGap ∈ final.fanoutGaps) := by
  induction rs generalizing out with
  | nil => exact ⟨fun _ h => h, [], [], (List.append_nil _).symm, .nil, List.nil_prefix, .inl rfl⟩
  | cons r rs ih =>
    obtain ⟨hgaps, hstep⟩ := emit_step ordered e out r h (hkeys r (List.mem_cons_self ..))
    rw [List.foldl_cons]
    rcases hstep with ⟨htruncated, hedges, hgap⟩ | ⟨hopen, edge, hedges, hemits⟩
    · rw [foldl_emit_truncated ordered e rs _ htruncated]
      exact ⟨hgaps, [], [], by rw [hedges, List.append_nil], .nil, List.nil_prefix, .inr hgap⟩
    · obtain ⟨hgaps', new, shown, hnew, hall, hpre, hend⟩ := ih _ hopen fun r hr =>
        hkeys r (List.mem_cons_of_mem _ hr)
      refine ⟨fun gap hgap => hgaps' gap (hgaps gap hgap), edge :: new, r :: shown, ?_,
        .cons hemits hall, List.cons_prefix_cons.mpr ⟨rfl, hpre⟩, hend.imp_left fun h => by rw [h]⟩
      rw [hnew, hedges, List.append_assoc, List.singleton_append]

/-! ## Gaps -/

def collectedGaps (observations : List TimelineCorrelationObservation) : Gaps :=
  let ordered := disambiguateObservationIds observations
  let e := expand ordered
  let out := e.relations.foldl (Output.emit ordered e) { fanoutGaps := e.fanoutGaps }
  ordered.foldl (fun gaps o => (observationGaps o).foldl (fun gaps gap => gaps.insert gap) gaps)
    out.fanoutGaps

def toGap (gap : Text × Text) : TimelineCoverageGap := { source := gap.1, reason := gap.2 }

def truncationGap (omittedCount : Nat) : TimelineCoverageGap :=
  { source := correlationGapTruncationSource
    reason := "coverage gap limit reached; ".toList ++ decimal omittedCount ++
      " additional ".toList ++ (if omittedCount = 1 then "gap".toList else "gaps".toList) ++
      " omitted".toList }

theorem reportedGaps_spec (gapSet : Gaps) :
    ∃ kept leftOut, gapSet.toList = kept ++ leftOut ∧ (reportedGaps gapSet).length ≤ maxCorrelationGaps ∧
      reportedGaps gapSet =
        kept.map toGap ++ if leftOut = [] then [] else [truncationGap leftOut.length] := by
  have hsize : gapSet.toList.length = gapSet.size := TreeSet.length_toList
  by_cases htruncated : maxCorrelationGaps < gapSet.size
  · refine ⟨gapSet.toList.take (maxCorrelationGaps - 1), gapSet.toList.drop (maxCorrelationGaps - 1),
      (List.take_append_drop _ _).symm, ?_, ?_⟩
    · rw [reportedGaps, decide_eq_true htruncated, if_pos rfl, if_pos rfl, List.length_append,
        List.length_map, List.length_take, List.length_singleton, hsize]
      rw [show maxCorrelationGaps = 4096 from rfl] at htruncated ⊢
      omega
    · have hleft : gapSet.toList.drop (maxCorrelationGaps - 1) ≠ [] := by
        rw [Ne, List.drop_eq_nil_iff, hsize, show maxCorrelationGaps = 4096 from rfl]
        rw [show maxCorrelationGaps = 4096 from rfl] at htruncated
        omega
      rw [reportedGaps, decide_eq_true htruncated, if_pos rfl, if_pos rfl, if_neg hleft,
        List.length_drop, hsize]
      rfl
  · have hle : gapSet.toList.length ≤ maxCorrelationGaps := by omega
    refine ⟨gapSet.toList, [], (List.append_nil _).symm, ?_, ?_⟩
    · rw [reportedGaps, decide_eq_false htruncated, if_neg Bool.false_ne_true,
        if_neg Bool.false_ne_true, List.append_nil, List.length_map, List.length_take]
      exact Nat.min_le_left _ _
    · rw [reportedGaps, decide_eq_false htruncated, if_neg Bool.false_ne_true,
        if_neg Bool.false_ne_true, List.take_of_length_le hle, if_pos rfl]
      rfl

def StatesLimit (gap : TimelineCoverageGap) : Prop :=
  ExpansionLimit gap.reason ∨ gap.reason = correlationEdgeBudgetReason ∨
    ∃ omittedCount, gap = truncationGap omittedCount

theorem states_limit {gapSet : Gaps} {gap : Text × Text} (hgap : gap ∈ gapSet)
    (h : StatesLimit (toGap gap)) : ∃ gap ∈ reportedGaps gapSet, StatesLimit gap := by
  obtain ⟨kept, leftOut, hall, -, hreported⟩ := reportedGaps_spec gapSet
  rw [← TreeSet.mem_toList, hall, List.mem_append] at hgap
  rw [hreported]
  rcases hgap with hgap | hgap
  · exact ⟨toGap gap, List.mem_append_left _ (List.mem_map_of_mem hgap), h⟩
  · refine ⟨truncationGap leftOut.length, List.mem_append_right _ ?_, .inr (.inr ⟨_, rfl⟩)⟩
    rw [if_neg (List.ne_nil_of_mem hgap)]
    exact List.mem_singleton_self _

theorem mem_foldl_observationGaps (ordered : List TimelineCorrelationObservation) (gaps : Gaps)
    {gap : Text × Text} (h : gap ∈ gaps) :
    gap ∈ ordered.foldl (fun gaps o =>
      (observationGaps o).foldl (fun gaps gap => gaps.insert gap) gaps) gaps := by
  have hinsert : ∀ (new : List (Text × Text)) (gaps : Gaps), gap ∈ gaps →
      gap ∈ new.foldl (fun gaps gap => gaps.insert gap) gaps := by
    intro new
    induction new with
    | nil => exact fun _ h => h
    | cons first new ih => exact fun gaps h => ih _ (TreeSet.mem_insert.mpr (.inr h))
  induction ordered generalizing gaps with
  | nil => exact h
  | cons o ordered ih => exact ih _ (hinsert _ gaps h)

/-! ## Nothing is left out silently -/

def Joins (x y : Text) (edge : TimelineCorrelationEdge) : Prop :=
  (edge.fromId = x ∧ edge.toId = some y) ∨ (edge.fromId = y ∧ edge.toId = some x)

instance (x y : Text) (edge : TimelineCorrelationEdge) : Decidable (Joins x y edge) :=
  inferInstanceAs (Decidable (_ ∨ _))

theorem joins_comm (x y : Text) (edge : TimelineCorrelationEdge) : Joins x y edge ↔ Joins y x edge :=
  or_comm

def edgeCount (edges : List TimelineCorrelationEdge) (x y : Text) : Nat :=
  edges.countP fun edge => decide (Joins x y edge)

theorem edgeCount_comm (edges : List TimelineCorrelationEdge) (x y : Text) :
    edgeCount edges x y = edgeCount edges y x := by
  simp only [edgeCount, joins_comm x y]

theorem countP_le_one {A : Type} {p : A → Bool} {l : List A}
    (h : l.Pairwise fun a b => ¬ (p a = true ∧ p b = true)) : l.countP p ≤ 1 := by
  rw [List.countP_eq_length_filter]
  have hfilter := h.filter p
  match hl : l.filter p with
  | [] => exact Nat.zero_le _
  | [_] => exact Nat.le_refl _
  | a :: b :: rest =>
    rw [hl] at hfilter
    have hmem : ∀ c ∈ a :: b :: rest, p c = true := fun c hc => (List.mem_filter.mp (hl ▸ hc)).2
    exact absurd ⟨hmem a (by simp), hmem b (by simp)⟩ (List.rel_of_pairwise_cons hfilter (by simp))

section Forall₂

variable {A B : Type} {P : A → B → Prop} {xs : List A} {ys : List B}

theorem exists_right_of_forall₂ (h : List.Forall₂ P xs ys) : ∀ a ∈ xs, ∃ r ∈ ys, P a r := by
  induction h with
  | nil =>
    intro a ha
    cases ha
  | @cons a r xs ys har _ ih =>
    rw [List.forall_mem_cons]
    refine ⟨⟨r, List.mem_cons_self .., har⟩, fun b hb => ?_⟩
    obtain ⟨s, hs, hbs⟩ := ih b hb
    exact ⟨s, List.mem_cons_of_mem _ hs, hbs⟩

theorem exists_left_of_forall₂ (h : List.Forall₂ P xs ys) : ∀ r ∈ ys, ∃ a ∈ xs, P a r :=
  exists_right_of_forall₂ (P := fun r a => P a r) h.flip

theorem pairwise_of_forall₂ {R : B → B → Prop} {S : A → A → Prop} (h : List.Forall₂ P xs ys)
    (hR : ys.Pairwise R) (hS : ∀ {a b r s}, P a r → P b s → R r s → S a b) : xs.Pairwise S := by
  induction h with
  | nil => exact .nil
  | @cons a r xs ys har hall ih =>
    rw [List.pairwise_cons] at hR
    refine List.pairwise_cons.mpr ⟨fun b hb => ?_, ih hR.2⟩
    obtain ⟨s, hs, hbs⟩ := exists_right_of_forall₂ hall b hb
    exact hS har hbs (hR.1 s hs)

end Forall₂

theorem edges_distinct {edges : List TimelineCorrelationEdge} {shown : List Related}
    (h : List.Forall₂ Emits edges shown) (hshown : Distinct shown) :
    (edges.map (·.id)).Nodup ∧ ∀ x y, edgeCount edges x y ≤ 1 := by
  have hpairs := hshown.distinct.imp_of_mem fun {r s} hr hs hne =>
    (⟨hne, hshown.ordered r hr, hshown.ordered s hs⟩ : (r.left, r.right) ≠ (s.left, s.right) ∧
      textOrder r.left r.right = .lt ∧ textOrder s.left s.right = .lt)
  constructor
  · rw [List.Nodup, List.pairwise_map]
    exact pairwise_of_forall₂ h hpairs fun ha hb hne hid => hne.1 (ha.ends hb hid)
  · intro x y
    refine countP_le_one (pairwise_of_forall₂ h hpairs fun {a b r s} ha hb hne => ?_)
    obtain ⟨hfrom, hto, -⟩ := ha
    obtain ⟨hfrom', hto', -⟩ := hb
    rintro ⟨hjoin, hjoin'⟩
    have hjoin := of_decide_eq_true hjoin
    have hjoin' := of_decide_eq_true hjoin'
    rw [Joins, hfrom, hto, Option.some_inj, Option.some_inj] at hjoin
    rw [Joins, hfrom', hto', Option.some_inj, Option.some_inj] at hjoin'
    obtain ⟨hne, hlt, hlt'⟩ := hne
    -- an edge is from the lesser id, so no two go opposite ways
    rcases hjoin with ⟨rfl, rfl⟩ | ⟨rfl, rfl⟩ <;> rcases hjoin' with ⟨hl, hr⟩ | ⟨hl, hr⟩
    · exact hne (by rw [hl, hr])
    · rw [hl, hr] at hlt'
      exact OrientedCmp.not_lt_of_lt hlt hlt'
    · rw [hl, hr] at hlt'
      exact OrientedCmp.not_lt_of_lt hlt hlt'
    · exact hne (by rw [hl, hr])

section

variable (observations : List TimelineCorrelationObservation)

theorem edge_or_budget {x y : Text}
    (h : ∃ r ∈ (expand (disambiguateObservationIds observations)).relations, r.left = x ∧ r.right = y) :
    edgeCount (correlateObservations observations).1 x y = 1 ∨
      ∃ gap ∈ (correlateObservations observations).2, StatesLimit gap := by
  obtain ⟨-, new, shown, hnew, hall, hpre, hend⟩ := foldl_emit_spec
    (disambiguateObservationIds observations) (expand (disambiguateObservationIds observations)) _
    { fanoutGaps := (expand (disambiguateObservationIds observations)).fanoutGaps } rfl
    fun r hr => (related_sound _ hr).key
  have hedges : (correlateObservations observations).1 = new := hnew
  rcases hend with rfl | hgap
  · obtain ⟨r, hr, hleft, hright⟩ := h
    obtain ⟨edge, hedge, hfrom, hto, -⟩ := exists_left_of_forall₂ hall r hr
    have hle := (edges_distinct hall (relations_distinct observations)).2 x y
    have hpos : 0 < edgeCount new x y := List.countP_pos_iff.mpr
      ⟨edge, hedge, decide_eq_true (.inl ⟨hfrom.trans hleft, by rw [hto, hright]⟩)⟩
    rw [hedges]
    exact .inl (by omega)
  · exact .inr (states_limit (mem_foldl_observationGaps _ _ hgap) (.inr (.inl rfl)))

theorem limited_stated (h : (expand (disambiguateObservationIds observations)).Limited) :
    ∃ gap ∈ (correlateObservations observations).2, StatesLimit gap := by
  obtain ⟨gap, hgap, hlimit⟩ := h
  obtain ⟨hgaps, -⟩ := foldl_emit_spec
    (disambiguateObservationIds observations) (expand (disambiguateObservationIds observations)) _
    { fanoutGaps := (expand (disambiguateObservationIds observations)).fanoutGaps } rfl
    fun r hr => (related_sound _ hr).key
  exact states_limit (mem_foldl_observationGaps _ _ (hgaps gap hgap)) (.inl hlimit)

/-- The origins carry one exact key, or one secondary key and no exact candidate
has been found of either. -/
def ToBeRelated (a b : TimelineCorrelationObservation) : Prop :=
  SharesExact a b ∨ SharesSecondary a b ∧
    (expand (disambiguateObservationIds observations)).related a.originId = false ∧
    (expand (disambiguateObservationIds observations)).related b.originId = false

theorem ToBeRelated.symm {a b : TimelineCorrelationObservation}
    (h : ToBeRelated observations a b) : ToBeRelated observations b a := by
  rcases h with ⟨key, ha, hb⟩ | ⟨⟨key, ha, hb⟩, hleft, hright⟩
  · exact .inl ⟨key, hb, ha⟩
  · exact .inr ⟨⟨key, hb, ha⟩, hright, hleft⟩

theorem edge_or_limit_of_lt {a b : TimelineCorrelationObservation}
    (ha : a ∈ disambiguateObservationIds observations)
    (hb : b ∈ disambiguateObservationIds observations) (hlt : textOrder a.originId b.originId = .lt)
    (h : ToBeRelated observations a b) :
    edgeCount (correlateObservations observations).1 a.originId b.originId = 1 ∨
      ∃ gap ∈ (correlateObservations observations).2, StatesLimit gap := by
  rcases h with hexact | ⟨hshared, hleft, hright⟩
  · rcases exact_keyed_or_limited observations ha hb hlt hexact with hkeyed | hlimited
    · exact edge_or_budget observations (mem_relations_of_exact hkeyed)
    · exact .inr (limited_stated observations hlimited)
  · rcases secondary_keyed_or_limited observations ha hb hlt hshared hleft hright with
      hkeyed | hlimited
    · exact edge_or_budget observations (mem_relations_of_secondary hkeyed)
    · exact .inr (limited_stated observations hlimited)

/-- Two origins that are to be related have one edge, or a gap states the limit that
was reached; edges are distinct; and gaps are cut at their limit with the number of
those left out. -/
theorem correlateObservations_omits_nothing_silently :
    (∀ a ∈ disambiguateObservationIds observations, ∀ b ∈ disambiguateObservationIds observations,
      a.originId ≠ b.originId → ToBeRelated observations a b →
      edgeCount (correlateObservations observations).1 a.originId b.originId = 1 ∨
        ∃ gap ∈ (correlateObservations observations).2, StatesLimit gap) ∧
    (∀ x y, edgeCount (correlateObservations observations).1 x y ≤ 1) ∧
    ((correlateObservations observations).1.map (·.id)).Nodup ∧
    (correlateObservations observations).2.length ≤ maxCorrelationGaps ∧
    ∃ kept leftOut, (collectedGaps observations).toList = kept ++ leftOut ∧
      (correlateObservations observations).2 =
        kept.map toGap ++ if leftOut = [] then [] else [truncationGap leftOut.length] := by
  obtain ⟨-, new, shown, hnew, hall, hpre, -⟩ := foldl_emit_spec
    (disambiguateObservationIds observations) (expand (disambiguateObservationIds observations)) _
    { fanoutGaps := (expand (disambiguateObservationIds observations)).fanoutGaps } rfl
    fun r hr => (related_sound _ hr).key
  have hedges : (correlateObservations observations).1 = new := hnew
  have hrelations := relations_distinct observations
  obtain ⟨hids, hcount⟩ := edges_distinct hall
    ⟨fun r hr => hrelations.ordered r (hpre.subset hr), hrelations.distinct.sublist hpre.sublist⟩
  obtain ⟨kept, leftOut, hgaps, hlength, hreported⟩ := reportedGaps_spec (collectedGaps observations)
  rw [hedges]
  refine ⟨fun a ha b hb hne h => ?_, hcount, hids, hlength, kept, leftOut, hgaps, hreported⟩
  rw [← hedges]
  cases horder : textOrder a.originId b.originId with
  | lt => exact edge_or_limit_of_lt observations ha hb horder h
  | eq => exact absurd (LawfulEqCmp.eq_of_compare horder) hne
  | gt =>
    rw [edgeCount_comm]
    exact edge_or_limit_of_lt observations hb ha (OrientedCmp.lt_of_gt horder) h.symm

end

end Timeline
end CmTrace
