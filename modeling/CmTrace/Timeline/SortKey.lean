import CmTrace.Collections.SortKeys
import CmTrace.Text.ByteOrder
import CmTrace.Timeline.Origin

/-!
# The textual key of an origin

An origin is written as one text, field after field, and the texts in the order of
their bytes are the origins in the order of the comparator.
-/

namespace CmTrace
namespace Timeline

open Std Text Collections Time

/-! ## Writing the key -/

def optionalTextKey (value : Option Text) : Text := writeOption ['n', 'o', 'n', 'e'] keyPart value

def optionalNumberKey (value : Option Nat) : Text :=
  writeOption ['n', 'o', 'n', 'e'] (fun number => ['s', 'o', 'm', 'e', ':'] ++ decimal number) value

def conflictsKey (conflicts : List Text) : Text := join [','] (conflicts.map keyPart)

def logSortKey (origin : LogOrigin) : Text :=
  ['l', 'o', 'g', '|'] ++ keyPart origin.source ++ ['|'] ++ keyPart origin.file ++ ['|'] ++
    padded 10 origin.line ++ ['|'] ++ padded 20 origin.recordId ++ ['|'] ++
    optionalTextKey origin.component ++ ['|'] ++ optionalTextKey origin.machine ++ ['|'] ++
    optionalTextKey origin.bundle

def eventSortKey (origin : EventOrigin) : Text :=
  ['e', 'v', 'e', 'n', 't', '|'] ++ keyPart origin.stableId ++ ['|'] ++
    keyPart origin.source ++ ['|'] ++ optionalTextKey origin.machine ++ ['|'] ++
    optionalTextKey origin.bundle ++ ['|'] ++ keyPart origin.channel ++ ['|'] ++ keyPart origin.provider ++ ['|'] ++
    optionalNumberKey origin.processId ++ ['|'] ++ optionalTextKey origin.activityId ++ ['|'] ++
    optionalTextKey origin.relatedActivityId ++ ['|'] ++ optionalTextKey origin.sessionId ++
    ['|'] ++ optionalTextKey origin.deviceId ++ ['|'] ++ optionalTextKey origin.userId ++ ['|'] ++
    optionalTextKey origin.processStartTime ++ ['|'] ++ conflictsKey origin.identityConflicts ++
    ['|'] ++ padded 10 origin.eventId ++ ['|'] ++ padded 20 origin.recordId ++ ['|'] ++
    optionalTextKey origin.recordIdText

def originSortKey : TimelineOrigin → Text
  | .log origin   => logSortKey origin
  | .event origin => eventSortKey origin

def TimelineOrigin.Typed : TimelineOrigin → Prop
  | .log origin   => origin.line ≤ u32Max ∧ origin.recordId ≤ u64Max
  | .event origin => origin.eventId ≤ u32Max ∧ origin.recordId ≤ u64Max ∧
      ∀ number ∈ origin.processId, number ≤ u32Max

/-! ## Parts of a key -/

abbrev charOrder : Char → Char → Ordering := compare

instance : OrientedCmp charOrder := inferInstance

instance : LawfulEqCmp charOrder := inferInstance

/-- A part of a key, whatever the part is a value of. -/
abbrev Writes {A : Type} (cmp : A → A → Ordering) (write : A → Text) : Prop :=
  Decides charOrder (fun _ => True) cmp write

theorem writes_decimal {terminator : Char} (h : terminator.isDigit = false) :
    Writes (compareDecimalText terminator) fun n => decimal n ++ [terminator] :=
  decides_terminated fun n _ => not_mem_decimal h n

theorem writes_keyPart : Writes compareKeyPart keyPart := by
  have hdecimal : Writes (compareDecimalText ':') fun n => decimal n ++ [':'] :=
    writes_decimal (by decide)
  have hlength : Writes (orderOn (compareDecimalText ':') byteLen)
      fun value => decimal (byteLen value) ++ [':'] := hdecimal.on fun _ _ => trivial
  have hparts : Writes compareKeyPart
      fun value => (decimal (byteLen value) ++ [':']) ++ id value := by
    refine hlength.seq_of_eq fun x y _ _ hsame s t => ?_
    have hbytes : byteLen x = byteLen y := eq_of_cmp (compareDecimalText ':') hsame
    have hnot : ∀ {a b : Text}, byteLen a = byteLen b → a <+: b → a = b := by
      rintro a _ hlen ⟨rest, rfl⟩
      exact (append_inj_of_byteLen (List.append_nil (a ++ rest)).symm hlen).1
    exact compareLex_append (hnot hbytes) (hnot hbytes.symm) s t
  have hkey : keyPart = fun value => (decimal (byteLen value) ++ [':']) ++ id value := by
    funext value
    rw [keyPart, List.append_assoc]
    rfl
  rw [hkey]
  exact hparts

theorem digit_lt {c : Char} (h : c.isDigit = true) {d : Char} (hd : '9'.toNat < d.toNat) :
    charOrder c d = .lt := by
  have hdigit := (Char.isDigit_iff_toNat.mp h).2
  rw [charOrder, compare_char]
  exact Nat.compare_eq_lt.mpr (by omega)

theorem keyPart_starts {d : Char} (hd : '9'.toNat < d.toNat) :
    StartsBelow charOrder (fun _ => True) keyPart d := by
  intro value _
  cases hdecimal : decimal (byteLen value) with
  | nil => exact absurd hdecimal (decimal_ne_nil _)
  | cons c rest =>
    refine ⟨c, rest ++ ':' :: value, ?_, digit_lt ?_ hd⟩
    · rw [keyPart, hdecimal]
      rfl
    · have hmem : c ∈ decimal (byteLen value) := by
        rw [hdecimal]
        exact List.mem_cons_self
      exact Nat.isDigit_of_mem_toDigits (by omega) (by omega) hmem

theorem writes_optionalText : Writes compareOptionalText optionalTextKey := by
  have hsome : Decides charOrder (OnSome fun _ => True) compareOptionalText
      (writeOption ('n' :: ['o', 'n', 'e']) keyPart) :=
    decides_someFirst writes_keyPart (keyPart_starts (by decide))
  exact hsome.mono fun _ _ _ _ => trivial

theorem writes_optionalNumber :
    Writes compareOptionalNumber fun value => optionalNumberKey value ++ ['|'] := by
  have hsome : Decides charOrder (OnSome fun _ => True) compareOptionalNumber
      (writeOption ('n' :: ['o', 'n', 'e', '|'])
        fun n => 's' :: ['o', 'm', 'e', ':'] ++ (decimal n ++ ['|'])) :=
    decides_noneFirst (writes_decimal (by decide)) (by decide)
  have hkey : (fun value => optionalNumberKey value ++ ['|']) =
      writeOption ('n' :: ['o', 'n', 'e', '|'])
        fun n => 's' :: ['o', 'm', 'e', ':'] ++ (decimal n ++ ['|']) := by
    funext value
    cases value with
    | none => rfl
    | some n =>
      show (['s', 'o', 'm', 'e', ':'] ++ decimal n) ++ ['|'] = _
      rw [List.append_assoc]
      rfl
  rw [hkey]
  exact hsome.mono fun _ _ _ _ => trivial

theorem writes_conflicts :
    Writes compareConflicts fun conflicts => conflictsKey conflicts ++ ['|'] := by
  have hlist : Decides charOrder (fun xs => ∀ x ∈ xs, True) compareConflicts
      (writeList ',' '|' keyPart) :=
    decides_longerFirst writes_keyPart (by decide) (keyPart_starts (by decide))
  have hkey : ∀ conflicts,
      conflictsKey conflicts ++ ['|'] = writeList ',' '|' keyPart conflicts := by
    intro conflicts
    induction conflicts with
    | nil => rfl
    | cons x xs ih =>
      cases xs with
      | nil => rfl
      | cons y xs =>
        rw [writeList, ← ih, conflictsKey, conflictsKey]
        show keyPart x ++ [','] ++ join [','] ((y :: xs).map keyPart) ++ ['|'] = _
        rw [List.append_assoc, List.append_assoc]
        rfl
  rw [show (fun conflicts => conflictsKey conflicts ++ ['|']) = writeList ',' '|' keyPart from
    funext hkey]
  exact hlist.mono fun _ _ _ _ => trivial

/-! ## Numbers with leading zeros -/

theorem padded_one {n : Nat} (h : n < 10) : padded 1 n = [Nat.digitChar n] := by
  rw [padded, decimal, Nat.toDigits_of_lt_base h]
  rfl

theorem padded_succ (width n : Nat) :
    padded (width + 2) n = padded (width + 1) (n / 10) ++ [Nat.digitChar (n % 10)] := by
  rcases Nat.lt_or_ge n 10 with hlt | hge
  · have hdiv : n / 10 = 0 := by omega
    rw [padded, padded, decimal, decimal, hdiv, Nat.toDigits_of_lt_base hlt,
      Nat.toDigits_of_lt_base (by omega : 0 < 10), Nat.mod_eq_of_lt hlt]
    show List.replicate (width + 1) '0' ++ _ = List.replicate width '0' ++ ['0'] ++ _
    rw [List.replicate_succ']
  · have hlen : width + 2 - ((Nat.toDigits 10 (n / 10)).length + 1) =
        width + 1 - (Nat.toDigits 10 (n / 10)).length := by omega
    rw [padded, padded, decimal, Nat.toDigits_of_base_le (by omega) hge, List.length_append,
      List.length_singleton, hlen, List.append_assoc]
    rfl

theorem natOrder_digits :
    natOrder = compareLex (orderOn natOrder (· / 10)) (orderOn natOrder (· % 10)) := by
  funext x y
  show compare x y = (compare (x / 10) (y / 10)).then (compare (x % 10) (y % 10))
  rcases Nat.lt_trichotomy (x / 10) (y / 10) with h | h | h
  · rw [Nat.compare_eq_lt.mpr h, Nat.compare_eq_lt.mpr (by omega)]
    rfl
  · rw [Nat.compare_eq_eq.mpr h]
    rcases Nat.lt_trichotomy (x % 10) (y % 10) with h' | h' | h'
    · rw [Nat.compare_eq_lt.mpr h', Nat.compare_eq_lt.mpr (by omega)]
      rfl
    · rw [Nat.compare_eq_eq.mpr h', Nat.compare_eq_eq.mpr (by omega)]
      rfl
    · rw [Nat.compare_eq_gt.mpr h', Nat.compare_eq_gt.mpr (by omega)]
      rfl
  · rw [Nat.compare_eq_gt.mpr h, Nat.compare_eq_gt.mpr (by omega)]
    rfl

theorem charOrder_digitChar : ∀ x < 10, ∀ y < 10,
    charOrder (Nat.digitChar x) (Nat.digitChar y) = natOrder x y := by
  decide

theorem decides_digit :
    Decides charOrder (fun n => n < 10) natOrder fun n => [Nat.digitChar n] := by
  intro x y hx hy s t
  rw [List.singleton_append, List.singleton_append, List.compareLex_cons_cons,
    charOrder_digitChar x hx y hy]

theorem decides_padded (width : Nat) :
    Decides charOrder (fun n => n < 10 ^ (width + 1)) natOrder (padded (width + 1)) := by
  induction width with
  | zero =>
    intro x y hx hy s t
    rw [Nat.zero_add, padded_one hx, padded_one hy]
    exact decides_digit x y hx hy s t
  | succ width ih =>
    have hhigh : Decides charOrder (fun n => n < 10 ^ (width + 2)) (orderOn natOrder (· / 10))
        fun n => padded (width + 1) (n / 10) := ih.on fun n hn => by
      rw [Nat.pow_succ] at hn
      omega
    have hlow : Decides charOrder (fun n => n < 10 ^ (width + 2)) (orderOn natOrder (· % 10))
        fun n => [Nat.digitChar (n % 10)] := decides_digit.on fun n _ => Nat.mod_lt n (by omega)
    rw [natOrder_digits, show padded (width + 1 + 1) = fun n =>
      padded (width + 1) (n / 10) ++ [Nat.digitChar (n % 10)] from funext (padded_succ width)]
    exact hhigh.seq hlow

/-! ## The order of keys -/

section Parts

variable {O : Type} {P : O → Prop} {cmp : O → O → Ordering} {rest : O → Text}

theorem bar (h : Decides charOrder P cmp rest) : Decides charOrder P cmp fun x => '|' :: rest x :=
  h.before ['|']

theorem field {A : Type} {order : A → A → Ordering} {write : A → Text} (h : Writes order write)
    (f : O → A) (hrest : Decides charOrder P cmp rest) :
    Decides charOrder P (compareLex (orderOn order f) cmp) fun x => write (f x) ++ rest x :=
  Decides.seq (h.on fun _ _ => trivial) hrest

theorem paddedField (width : Nat) {f : O → Nat} (hf : ∀ x, P x → f x < 10 ^ (width + 1))
    (hrest : Decides charOrder P cmp rest) :
    Decides charOrder P (compareLex (orderOn natOrder f) cmp)
      fun x => padded (width + 1) (f x) ++ rest x :=
  Decides.seq ((decides_padded width).on hf) hrest

end Parts

theorem lt_of_le_u32Max {n : Nat} (h : n ≤ u32Max) : n < 10 ^ (9 + 1) :=
  Nat.lt_of_le_of_lt h (by decide)

theorem lt_of_le_u64Max {n : Nat} (h : n ≤ u64Max) : n < 10 ^ (19 + 1) :=
  Nat.lt_of_le_of_lt h (by decide)

theorem decides_logSortKey :
    Decides charOrder (fun origin => TimelineOrigin.Typed (.log origin)) logSortCmp logSortKey := by
  have hkey : logSortKey = fun origin => ['l', 'o', 'g', '|'] ++
      (keyPart origin.source ++ '|' :: (keyPart origin.file ++ '|' ::
        (padded 10 origin.line ++ '|' :: (padded 20 origin.recordId ++ '|' ::
          (optionalTextKey origin.component ++ '|' :: (optionalTextKey origin.machine ++ '|' ::
            optionalTextKey origin.bundle)))))) := by
    funext origin
    unfold logSortKey
    simp only [List.append_assoc, List.cons_append, List.nil_append]
  rw [hkey]
  refine Decides.before (field writes_keyPart _ <| bar <| field writes_keyPart _ <| bar <|
    paddedField 9 (fun _ h => lt_of_le_u32Max h.1) <| bar <|
    paddedField 19 (fun _ h => lt_of_le_u64Max h.2) <| bar <|
    field writes_optionalText _ <| bar <| field writes_optionalText _ <| bar <| ?_) _
  exact writes_optionalText.on fun _ _ => trivial

theorem decides_eventSortKey :
    Decides charOrder (fun origin => TimelineOrigin.Typed (.event origin)) eventSortCmp
      eventSortKey := by
  have hkey : eventSortKey = fun origin => ['e', 'v', 'e', 'n', 't', '|'] ++
      (keyPart origin.stableId ++ '|' :: (keyPart origin.source ++ '|' ::
        (optionalTextKey origin.machine ++ '|' :: (optionalTextKey origin.bundle ++ '|' ::
          (keyPart origin.channel ++ '|' :: (keyPart origin.provider ++ '|' ::
            ((optionalNumberKey origin.processId ++ ['|']) ++
              (optionalTextKey origin.activityId ++ '|' ::
                (optionalTextKey origin.relatedActivityId ++ '|' ::
                  (optionalTextKey origin.sessionId ++ '|' ::
                    (optionalTextKey origin.deviceId ++ '|' ::
                      (optionalTextKey origin.userId ++ '|' ::
                        (optionalTextKey origin.processStartTime ++ '|' ::
                          ((conflictsKey origin.identityConflicts ++ ['|']) ++
                            (padded 10 origin.eventId ++ '|' ::
                              (padded 20 origin.recordId ++ '|' ::
                                optionalTextKey origin.recordIdText)))))))))))))))) := by
    funext origin
    unfold eventSortKey
    simp only [List.append_assoc, List.cons_append, List.nil_append]
  rw [hkey]
  refine Decides.before (field writes_keyPart _ <| bar <| field writes_keyPart _ <| bar <|
    field writes_optionalText _ <| bar <| field writes_optionalText _ <| bar <|
    field writes_keyPart _ <| bar <| field writes_keyPart _ <| bar <|
    field writes_optionalNumber _ <| field writes_optionalText _ <| bar <|
    field writes_optionalText _ <| bar <| field writes_optionalText _ <| bar <|
    field writes_optionalText _ <| bar <| field writes_optionalText _ <| bar <|
    field writes_optionalText _ <| bar <| field writes_conflicts _ <|
    paddedField 9 (fun _ h => lt_of_le_u32Max h.1) <| bar <|
    paddedField 19 (fun _ h => lt_of_le_u64Max h.2.1) <| bar <| ?_) _
  exact writes_optionalText.on fun _ _ => trivial

theorem logSortKey_starts (origin : LogOrigin) : ∃ rest, logSortKey origin = 'l' :: rest := by
  unfold logSortKey
  simp only [List.cons_append]
  exact ⟨_, rfl⟩

theorem eventSortKey_starts (origin : EventOrigin) : ∃ rest, eventSortKey origin = 'e' :: rest := by
  unfold eventSortKey
  simp only [List.cons_append]
  exact ⟨_, rfl⟩

theorem originSortCmp_eq_textOrder (a b : TimelineOrigin) (ha : a.Typed) (hb : b.Typed) :
    originSortCmp a b = textOrder (originSortKey a) (originSortKey b) := by
  cases a with
  | log a =>
    cases b with
    | log b => exact (decides_logSortKey.compare_keys ha hb).symm
    | event b =>
      obtain ⟨rest, hlog⟩ := logSortKey_starts a
      obtain ⟨rest', hevent⟩ := eventSortKey_starts b
      rw [originSortKey, originSortKey, hlog, hevent]
      rfl
  | event a =>
    cases b with
    | log b =>
      obtain ⟨rest, hevent⟩ := eventSortKey_starts a
      obtain ⟨rest', hlog⟩ := logSortKey_starts b
      rw [originSortKey, originSortKey, hlog, hevent]
      rfl
    | event b => exact (decides_eventSortKey.compare_keys ha hb).symm

/-- The comparator is the order of the bytes of the keys, and it tells origins apart. -/
theorem originSortCmp_eq_keys (a b : TimelineOrigin) (ha : a.Typed) (hb : b.Typed) :
    originSortCmp a b =
        compare (utf8Bytes (originSortKey a)) (utf8Bytes (originSortKey b)) ∧
      (originSortCmp a b = .eq ↔ a = b) ∧ (originSortKey a = originSortKey b ↔ a = b) := by
  have horder := originSortCmp_eq_textOrder a b ha hb
  refine ⟨by rw [horder, compare_utf8Bytes], LawfulEqCmp.compare_eq_iff_eq, ?_, ?_⟩
  · intro h
    rw [h, cmp_self textOrder] at horder
    exact LawfulEqCmp.compare_eq_iff_eq.mp horder
  · exact congrArg originSortKey

/-- The lengths 9 and 10 compare as their digits do. -/
theorem originSortCmp_eq_keys_lengths :
    let origin (source : Text) : TimelineOrigin :=
      .log { file := [], component := none, line := 1, source := source, machine := none,
             bundle := none, recordId := 1 }
    originSortCmp (origin (List.replicate 9 'a')) (origin (List.replicate 10 'a')) =
        compare (utf8Bytes (originSortKey (origin (List.replicate 9 'a'))))
          (utf8Bytes (originSortKey (origin (List.replicate 10 'a')))) ∧
      (originSortCmp (origin (List.replicate 9 'a')) (origin (List.replicate 10 'a')) = .eq ↔
        origin (List.replicate 9 'a') = origin (List.replicate 10 'a')) ∧
      (originSortKey (origin (List.replicate 9 'a')) =
          originSortKey (origin (List.replicate 10 'a')) ↔
        origin (List.replicate 9 'a') = origin (List.replicate 10 'a')) :=
  originSortCmp_eq_keys _ _ ⟨by decide, by decide⟩ ⟨by decide, by decide⟩

end Timeline
end CmTrace
