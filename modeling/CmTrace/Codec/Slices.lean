import CmTrace.Codec.Utf

/-!
# Items read again from where they stand

Bytes that decode to `before ++ items ++ after` hold `items` between two offsets,
the widths of `before` and of `before ++ items`.  Decoding only the bytes between
these offsets gives `items` and leaves nothing over, for a code that decides an
item from the bytes of the item alone.
-/

namespace CmTrace
namespace Codec

def widths {α : Type} (items : List (α × Nat)) : Nat := (items.map Prod.snd).sum

@[simp] theorem widths_nil {α : Type} : widths ([] : List (α × Nat)) = 0 := rfl

@[simp] theorem widths_cons {α : Type} (item : α × Nat) (items : List (α × Nat)) :
    widths (item :: items) = item.2 + widths items := by
  rw [widths, List.map_cons, List.sum_cons]
  rfl

@[simp] theorem widths_append {α : Type} (a b : List (α × Nat)) :
    widths (a ++ b) = widths a + widths b := by
  rw [widths, List.map_append, List.sum_append]
  rfl

namespace PrefixCode

variable {α : Type} (c : PrefixCode α)

def Instant : Prop :=
  ∀ {bs : List UInt8} {a : α} {n : Nat}, c.head bs = .done a n → c.head (bs.take n) = .done a n

theorem decode_cons {bs : List UInt8} {item : α × Nat} {items : List (α × Nat)} {carry : List UInt8}
    (h : c.decode bs = some (item :: items, carry)) :
    c.head bs = .done item.1 item.2 ∧ c.decode (bs.drop item.2) = some (items, carry) := by
  cases hh : c.head bs with
  | incomplete => rw [c.decode_incomplete hh] at h; cases h
  | invalid => rw [c.decode_invalid hh] at h; cases h
  | done a w =>
    rw [c.decode_done hh, Option.map_eq_some_iff] at h
    obtain ⟨r, hr, he⟩ := h
    cases he
    exact ⟨rfl, hr⟩

theorem decode_drop (before : List (α × Nat)) : ∀ {bs : List UInt8} {items : List (α × Nat)}
    {carry : List UInt8}, c.decode bs = some (before ++ items, carry) →
      c.decode (bs.drop (widths before)) = some (items, carry) := by
  induction before with
  | nil => intro bs items carry h; exact h
  | cons item before ih =>
    intro bs items carry h
    rw [widths_cons, ← List.drop_drop]
    exact ih (c.decode_cons h).2

theorem decode_take (hc : c.Instant) (items : List (α × Nat)) : ∀ {bs : List UInt8}
    {after : List (α × Nat)} {carry : List UInt8}, c.decode bs = some (items ++ after, carry) →
      c.decode (bs.take (widths items)) = some (items, []) := by
  induction items with
  | nil =>
    intro bs after carry _
    exact c.decode_nil
  | cons item items ih =>
    intro bs after carry h
    obtain ⟨hhead, hrest⟩ := c.decode_cons h
    have hbytes : bs.take (item.2 + widths items) =
        bs.take item.2 ++ (bs.drop item.2).take (widths items) := List.take_add
    have hw := c.width_bound hhead
    have hlen : (bs.take item.2).length = item.2 := by
      rw [List.length_take]
      omega
    have hfirst : c.head (bs.take (item.2 + widths items)) = .done item.1 item.2 := by
      rw [hbytes]
      exact c.done_append _ (hc hhead)
    rw [widths_cons, c.decode_done hfirst, hbytes, List.drop_left' hlen, ih hrest]
    rfl

theorem decode_slice (hc : c.Instant) {bs : List UInt8} {before items after : List (α × Nat)}
    {carry : List UInt8} (h : c.decode bs = some (before ++ items ++ after, carry)) :
    c.decode ((bs.drop (widths before)).take (widths items)) = some (items, []) := by
  rw [List.append_assoc] at h
  exact c.decode_take hc items (c.decode_drop before h)

end PrefixCode

/-! ## The codes decide at once -/

theorem utf8Tail_take : ∀ {count lo hi bits width n : Nat} {bs : List UInt8} {ch : Char},
    utf8Tail count lo hi bits width bs = .done ch n →
      utf8Tail count lo hi bits width (bs.take count) = .done ch n
  | 0, _, _, _, _, _, _, _, h => by rw [utf8Tail] at h ⊢; exact h
  | _ + 1, _, _, _, _, _, [], _, h => by rw [utf8Tail] at h; cases h
  | count + 1, lo, hi, bits, width, n, b :: rest, ch, h => by
    rw [utf8Tail] at h
    rw [List.take_succ_cons, utf8Tail]
    split at h
    · rename_i hb
      rw [if_pos hb]
      exact utf8Tail_take h
    · cases h

theorem utf8_instant : utf8.Instant := by
  intro bs a n h
  have hhead : utf8Head bs = .done a n := h
  show utf8Head (bs.take n) = .done a n
  cases bs with
  | nil => cases hhead
  | cons b rest =>
    rw [utf8Head] at hhead
    split at hhead
    · rename_i lead hlead
      have hn := (utf8Tail_width hhead).1
      have htake : (b :: rest).take n = b :: rest.take lead.count := by
        rw [hn, Nat.add_comm, List.take_succ_cons]
      rw [htake, utf8Head, hlead]
      exact utf8Tail_take hhead
    · cases hhead

theorem utf16_instant (le : Bool) : (utf16 le).Instant := by
  intro bs a n h
  have hhead : utf16Head le bs = .done a n := h
  show utf16Head le (bs.take n) = .done a n
  rcases utf16Head_cases le bs with
    ⟨_, hi⟩ | ⟨x, y, rest, rfl, ht⟩ | ⟨x, y, z, w, rest, rfl, ht⟩
  · rw [hi] at hhead
    cases hhead
  all_goals
    rcases (ht []).2 with hi | ⟨ch, hd⟩
    · rw [hi] at hhead
      cases hhead
    · rw [hd] at hhead
      cases hhead
      exact (ht []).1.trans hd

theorem windows1252_instant : windows1252.Instant := by
  intro bs a n h
  cases bs with
  | nil => cases h
  | cons b rest =>
    cases h
    rfl

end Codec
end CmTrace
