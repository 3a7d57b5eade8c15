import MarketFeed.Text.Utf8

/-!
# MarketFeed.Wire.FixedText

Text in a field of a fixed number of bytes, filled up with zeros.

* `fixedText width s` — the field: the UTF-8 bytes of `s`, cut at the field's end even inside a
  character, then zeros.
* `ofFixedText field` — the text before the first zero byte; bytes that are no text are U+FFFD.
* `length_fixedText` — the field has exactly `width` bytes.
-/

namespace MarketFeed
namespace Wire

def fixedText (width : Nat) (s : String) : List UInt8 :=
  let bytes := (Text.bytesOfText s).take width
  bytes ++ List.replicate (width - bytes.length) 0

def ofFixedText (field : List UInt8) : String := Text.textOfBytes (field.takeWhile (· != 0))

theorem length_fixedText (width : Nat) (s : String) : (fixedText width s).length = width := by
  simp only [fixedText, List.length_append, List.length_replicate, List.length_take]
  omega

end Wire
end MarketFeed
