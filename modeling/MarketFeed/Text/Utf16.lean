import MarketFeed.Text.Utf8

/-!
# MarketFeed.Text.Utf16

* `units` — the 16-bit units of some bytes, in either order.
* `decodeUnitsLossy` — the text of some units, with U+FFFD for a surrogate that stands alone.
* `textOfMarkedBytes` — the text of bytes that may begin with a byte order mark. Without one they
  are UTF-8.
-/

namespace MarketFeed
namespace Text

/-- The units of some bytes. A byte left over is a unit that is no character. -/
def units (bigEndian : Bool) : List UInt8 → List Nat
  | a :: b :: rest =>
    (if bigEndian then a.toNat * 256 + b.toNat else b.toNat * 256 + a.toNat) ::
      units bigEndian rest
  | [_] => [0xDFFF]
  | [] => []

def isHighSurrogate (n : Nat) : Bool := 0xD800 ≤ n && n < 0xDC00

def isLowSurrogate (n : Nat) : Bool := 0xDC00 ≤ n && n < 0xE000

def decodeUnitsLossy : List Nat → List Char
  | [] => []
  | [a] => [if isHighSurrogate a || isLowSurrogate a then replacement else Char.ofNat a]
  | a :: b :: rest =>
    if isHighSurrogate a && isLowSurrogate b then
      Char.ofNat (0x10000 + (a - 0xD800) * 0x400 + (b - 0xDC00)) :: decodeUnitsLossy rest
    else if isHighSurrogate a || isLowSurrogate a then replacement :: decodeUnitsLossy (b :: rest)
    else Char.ofNat a :: decodeUnitsLossy (b :: rest)

def textOfMarkedBytes : List UInt8 → String
  | 0xEF :: 0xBB :: 0xBF :: rest => textOfBytes rest
  | 0xFE :: 0xFF :: rest => String.ofList (decodeUnitsLossy (units true rest))
  | 0xFF :: 0xFE :: rest => String.ofList (decodeUnitsLossy (units false rest))
  | bytes => textOfBytes bytes

end Text
end MarketFeed
