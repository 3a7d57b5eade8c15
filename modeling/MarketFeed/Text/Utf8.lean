/-!
# MarketFeed.Text.Utf8

UTF-8 (RFC 3629), written exactly and read leniently.

* `encode` — the bytes of a text.
* `decodeLossy` — the text of some bytes. A maximal run of bytes that begins a character but does
  not complete one, and every byte that begins none, is read as one U+FFFD.

The reader is a byte machine: between characters, or inside one with some bytes owed, the next of
which has to lie in a range.
-/

namespace MarketFeed
namespace Text

/-- The bytes of one character: its code point in one to four bytes. -/
def encodeChar (c : Char) : List UInt8 :=
  let n := c.toNat
  if n < 0x80 then [n.toUInt8]
  else if n < 0x800 then [(0xC0 + n / 0x40).toUInt8, (0x80 + n % 0x40).toUInt8]
  else if n < 0x10000 then
    [(0xE0 + n / 0x1000).toUInt8, (0x80 + n / 0x40 % 0x40).toUInt8, (0x80 + n % 0x40).toUInt8]
  else
    [(0xF0 + n / 0x40000).toUInt8, (0x80 + n / 0x1000 % 0x40).toUInt8,
      (0x80 + n / 0x40 % 0x40).toUInt8, (0x80 + n % 0x40).toUInt8]

def encode (s : List Char) : List UInt8 := s.flatMap encodeChar

/-- The bytes of a text, given as a string. -/
def bytesOfText (s : String) : List UInt8 := encode s.toList

/-- U+FFFD, which stands for bytes that are no character. -/
def replacement : Char := Char.ofNat 0xFFFD

/-- A character whose first bytes were read: the value so far, the number of bytes owed, and the
range of the next one. -/
structure Begun where
  value : Nat
  owed : Nat
  low : Nat
  high : Nat
  deriving DecidableEq, Repr

/-- What a byte means between characters. -/
inductive Lead where
  | whole (c : Char)
  | begun (b : Begun)
  | stray
  deriving DecidableEq, Repr

def lead (byte : UInt8) : Lead :=
  let b := byte.toNat
  if b < 0x80 then .whole (Char.ofNat b)
  else if b < 0xC2 then .stray
  else if b < 0xE0 then .begun ⟨b - 0xC0, 1, 0x80, 0xBF⟩
  else if b = 0xE0 then .begun ⟨0, 2, 0xA0, 0xBF⟩
  else if b = 0xED then .begun ⟨0xD, 2, 0x80, 0x9F⟩
  else if b < 0xF0 then .begun ⟨b - 0xE0, 2, 0x80, 0xBF⟩
  else if b = 0xF0 then .begun ⟨0, 3, 0x90, 0xBF⟩
  else if b < 0xF4 then .begun ⟨b - 0xF0, 3, 0x80, 0xBF⟩
  else if b = 0xF4 then .begun ⟨4, 3, 0x80, 0x8F⟩
  else .stray

/-- The next byte of a begun character; none if it cannot follow. -/
def Begun.continue? (s : Begun) (byte : UInt8) : Option Lead :=
  let b := byte.toNat
  if s.low ≤ b ∧ b ≤ s.high then
    let value := s.value * 0x40 + (b - 0x80)
    if s.owed ≤ 1 then some (.whole (Char.ofNat value))
    else some (.begun ⟨value, s.owed - 1, 0x80, 0xBF⟩)
  else none

mutual

/-- Reads from between characters. -/
def decodeLossy : List UInt8 → List Char
  | [] => []
  | b :: rest =>
    match lead b with
    | .whole c => c :: decodeLossy rest
    | .begun s => decodeBegun s rest
    | .stray => replacement :: decodeLossy rest

/-- Reads from inside a character. A byte that cannot follow ends it as U+FFFD and is read again
from between characters. -/
def decodeBegun (s : Begun) : List UInt8 → List Char
  | [] => [replacement]
  | b :: rest =>
    match s.continue? b with
    | some (.whole c) => c :: decodeLossy rest
    | some (.begun s) => decodeBegun s rest
    | some .stray => replacement :: decodeLossy rest
    | none =>
      replacement ::
        match lead b with
        | .whole c => c :: decodeLossy rest
        | .begun s => decodeBegun s rest
        | .stray => replacement :: decodeLossy rest

end

/-- The text of some bytes, with U+FFFD where they are no text. -/
def textOfBytes (bytes : List UInt8) : String := String.ofList (decodeLossy bytes)

end Text
end MarketFeed
