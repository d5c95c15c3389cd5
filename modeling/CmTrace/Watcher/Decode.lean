import CmTrace.Codec.Utf
import CmTrace.Watcher.Source

/-!
# Decoding appended bytes

UTF-16 is decoded by the encoding library read by read, with half a unit carried
over; UTF-8 is validated, with the scalar that is not all there carried over.
-/

namespace CmTrace
namespace Watcher

open Text Codec

/-- The decoders of the encoding library, which look for a mark of their own at
the front of what they are given. -/
structure EncodingRs where
  /-- Little-endian when the flag is set. -/
  decodeUtf16 : Bool → List UInt8 → Text
  decodeWindows1252 : List UInt8 → Text

def utf8Mark : List UInt8 := [0xEF, 0xBB, 0xBF]

def utf16LeMark : List UInt8 := [0xFF, 0xFE]

def utf16BeMark : List UInt8 := [0xFE, 0xFF]

def detectEncoding (bytes : List UInt8) : FileEncoding :=
  if utf16LeMark.isPrefixOf bytes then .utf16Le
  else if utf16BeMark.isPrefixOf bytes then .utf16Be
  else .utf8

def stripMark (mark bytes : List UInt8) : List UInt8 :=
  if mark.isPrefixOf bytes then bytes.drop mark.length else bytes

def replaceCrLf : Text → Text
  | [] => []
  | [c] => [c]
  | c :: d :: s =>
    if c = '\r' ∧ d = '\n' then '\n' :: replaceCrLf s else c :: replaceCrLf (d :: s)

/-- The text of UTF-8 bytes that are all there. -/
def fromUtf8 (bytes : List UInt8) : Option Text :=
  match Codec.utf8.decode bytes with
  | some (items, []) => some (items.map Prod.fst)
  | _ => none

def decodeBytes (rs : EncodingRs) (bytes : List UInt8) : FileEncoding → Text
  | .utf16Le => replaceCrLf (rs.decodeUtf16 true (stripMark utf16LeMark bytes))
  | .utf16Be => replaceCrLf (rs.decodeUtf16 false (stripMark utf16BeMark bytes))
  | .utf8 =>
    let unmarked := stripMark utf8Mark bytes
    (fromUtf8 unmarked).getD (rs.decodeWindows1252 unmarked)

structure DecodedTailBytes where
  text : Text := []
  pendingByte : Option UInt8 := none
  pendingUtf8Bytes : List UInt8 := []
  pendingUtf8Selection : Option ResolvedParser := none
  deriving DecidableEq

inductive TailError where
  /-- The file cannot be opened or read. -/
  | io
  | invalidUtf8
  deriving DecidableEq, Repr

namespace TailReader

variable {I : Type}

/-- Decode what was read at the reader's position, or at the beginning of the
file when the read is a reset. -/
def decodeTailBytes (rs : EncodingRs) (r : TailReader I) (buffer : List UInt8)
    (encoding : FileEncoding) (reset : Bool) : Except TailError DecodedTailBytes :=
  if encoding ≠ .utf8 then
    let previousByte := if reset then none else r.pendingByte
    let decodeBuffer := previousByte.toList ++ buffer
    let decodeLen := decodeBuffer.length - decodeBuffer.length % 2
    .ok { text        := decodeBytes rs (decodeBuffer.take decodeLen) encoding
          pendingByte := decodeBuffer[decodeLen]? }
  else
    let previousCarry := if reset then [] else r.pendingUtf8Bytes
    let previousCarrySelection := if reset then none else r.pendingUtf8Selection
    let decodedStartOffset := if reset then 0 else r.byteOffset - previousCarry.length
    let combined := previousCarry ++ buffer
    let decodeBuffer := if decodedStartOffset = 0 then stripMark utf8Mark combined else combined
    -- a scalar that is not all there is told from an invalid byte
    match Codec.utf8.decode decodeBuffer with
    | some (items, []) => .ok { text := items.map Prod.fst }
    | some (items, incomplete) =>
      .ok { text                 := items.map Prod.fst
            pendingUtf8Bytes     := incomplete
            pendingUtf8Selection := previousCarrySelection.or (some r.parserSelection) }
    | none => .error .invalidUtf8

end TailReader

/-! ## UTF-16 read by read -/

/-- The units of UTF-16 bytes; half a unit at the end is left out. -/
def units (le : Bool) : List UInt8 → List Nat
  | a :: b :: rest => utf16Unit le a b :: units le rest
  | _ => []

/-- Surrogate pairs are joined and surrogates without a pair are replaced. -/
def fromUtf16Lossy : List Nat → Text
  | [] => []
  | [u] => [if isHighSurrogate u || isLowSurrogate u then '\uFFFD' else Char.ofNat u]
  | u :: v :: rest =>
    if isHighSurrogate u && isLowSurrogate v then
      Char.ofNat (0x10000 + (u - 0xD800) * 0x400 + (v - 0xDC00)) :: fromUtf16Lossy rest
    else (if isHighSurrogate u || isLowSurrogate u then '\uFFFD' else Char.ofNat u) ::
      fromUtf16Lossy (v :: rest)

def looksMarked (bytes : List UInt8) : Bool :=
  utf8Mark.isPrefixOf bytes || utf16LeMark.isPrefixOf bytes || utf16BeMark.isPrefixOf bytes

/-- Well-formed UTF-16 is decoded exactly and malformed units are replaced,
where no mark of another encoding is found. -/
def EncodingRs.Utf16Exact (rs : EncodingRs) : Prop :=
  ∀ le bytes, looksMarked bytes = false → bytes.length % 2 = 0 →
    rs.decodeUtf16 le bytes = fromUtf16Lossy (units le bytes)

end Watcher
end CmTrace
