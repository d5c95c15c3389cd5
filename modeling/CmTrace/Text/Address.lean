import CmTrace.Text.Number

/-!
# Internet addresses

The textual forms of IPv4 and IPv6 addresses, read by backtracking: a part that
does not read leaves the input where it was.
-/

namespace CmTrace
namespace Text
namespace Address

/-- Digits at the front, at most `maxDigits` of them, and the rest. -/
def readDigits (radix : Nat) : Nat → Nat → Text → Option (Nat × Nat × Text)
  | _, acc, [] => some (acc, 0, [])
  | maxDigits, acc, c :: rest =>
    match digit radix c with
    | none => some (acc, 0, c :: rest)
    | some d =>
      match maxDigits with
      | 0 => none
      | maxDigits + 1 =>
        (readDigits radix maxDigits (acc * radix + d) rest).map fun r => (r.1, r.2.1 + 1, r.2.2)

/-- A number of at most `maxDigits` digits, up to `limit`. -/
def readNumber (radix maxDigits limit : Nat) (allowZeroPrefix : Bool) (s : Text) :
    Option (Nat × Text) :=
  match readDigits radix maxDigits 0 s with
  | none => none
  | some (value, count, rest) =>
    if count = 0 then none
    else if allowZeroPrefix = false ∧ s.head? = some '0' ∧ 1 < count then none
    else if limit < value then none
    else some (value, rest)

def readChar (c : Char) : Text → Option Text
  | [] => none
  | d :: rest => if d = c then some rest else none

/-- Before every item but the first a separator is due. -/
def readSeparator {α : Type} (sep : Char) (index : Nat) (item : Text → Option (α × Text))
    (s : Text) : Option (α × Text) :=
  if index = 0 then item s else (readChar sep s).bind item

def readIpv4From : Nat → Nat → Text → Option (List Nat × Text)
  | 0, _, s => some ([], s)
  | count + 1, index, s =>
    (readSeparator '.' index (readNumber 10 3 u8Max false) s).bind fun r =>
      (readIpv4From count (index + 1) r.2).map fun r' => (r.1 :: r'.1, r'.2)

def readIpv4 (s : Text) : Option (List Nat × Text) := readIpv4From 4 0 s

/-- Up to `left` groups of sixteen bits from the group `index` on, how many were
read and whether the last two were written as an IPv4 address. -/
def readGroups : Nat → Nat → Text → Nat × Bool × Text
  | 0, _, s => (0, false, s)
  | left + 1, index, s =>
    let embedded := if 0 < left then readSeparator ':' index readIpv4 s else none
    match embedded with
    | some (_, rest) => (2, true, rest)
    | none =>
      match readSeparator ':' index (readNumber 16 4 u16Max true) s with
      | none => (0, false, s)
      | some (_, rest) =>
        let r := readGroups left (index + 1) rest
        (r.1 + 1, r.2.1, r.2.2)

def readIpv6 (s : Text) : Option Text :=
  let (headSize, headIpv4, rest) := readGroups 8 0 s
  if headSize = 8 then some rest
  else if headIpv4 then none
  else ((readChar ':' rest).bind (readChar ':')).map fun rest =>
    (readGroups (8 - (headSize + 1)) 0 rest).2.2

end Address

/-- The whole text is an IPv4 or an IPv6 address. -/
def isIpAddr (s : Text) : Bool :=
  match Address.readIpv4 s with
  | some (_, rest) => rest == []
  | none => Address.readIpv6 s == some []

example : isIpAddr "2001:db8::1".toList = true ∧ isIpAddr "::ffff:192.0.2.11".toList = true ∧
    isIpAddr "192.0.2.011".toList = false ∧ isIpAddr "1::2::3".toList = false := by
  decide +kernel

end Text
end CmTrace
