import MarketFeed.Text.Utf8

/-!
# MarketFeed.Text.FormEncoding

The form encoding of URL queries (application/x-www-form-urlencoded).

* `formText` — a text: letters, digits and `*-._` stand for themselves, a space is a plus sign,
  every other byte of its UTF-8 form is a percent sign and two hexadecimal digits.
* `query` — names and values joined by `=` and `&`.
-/

namespace MarketFeed
namespace Text

def isFormSafe (c : Char) : Bool :=
  c.isAlphanum || c = '*' || c = '-' || c = '.' || c = '_'

def upperHexDigit (n : Nat) : Char := if n < 10 then Char.ofNat (48 + n) else Char.ofNat (55 + n)

def percentByte (b : UInt8) : List Char :=
  ['%', upperHexDigit (b.toNat / 16), upperHexDigit (b.toNat % 16)]

def formChar (c : Char) : List Char :=
  if isFormSafe c then [c]
  else if c = ' ' then ['+']
  else (encodeChar c).flatMap percentByte

def formText (s : String) : String := String.ofList (s.toList.flatMap formChar)

def query (parameters : List (String × String)) : String :=
  "&".intercalate (parameters.map fun p => formText p.1 ++ "=" ++ formText p.2)

end Text
end MarketFeed
