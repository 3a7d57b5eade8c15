import MarketFeed.Json.Tree
import MarketFeed.Binary64.Shortest

/-!
# MarketFeed.Json.Printer

Writing JSON without spaces. A quote, a backslash and the control characters are escaped, all
other characters stand for themselves.

* `stringText` — a string between quotes.
* `Value.text` — a value.
-/

namespace MarketFeed
namespace Json

def hexDigit (n : Nat) : Char := if n < 10 then Char.ofNat (48 + n) else Char.ofNat (87 + n)

def escapeChar (c : Char) : List Char :=
  let n := c.toNat
  if c = '"' then ['\\', '"']
  else if c = '\\' then ['\\', '\\']
  else if n = 8 then ['\\', 'b']
  else if n = 9 then ['\\', 't']
  else if n = 10 then ['\\', 'n']
  else if n = 12 then ['\\', 'f']
  else if n = 13 then ['\\', 'r']
  else if n < 0x20 then ['\\', 'u', '0', '0', hexDigit (n / 16), hexDigit (n % 16)]
  else [c]

def stringText (s : String) : List Char := '"' :: (s.toList.flatMap escapeChar ++ ['"'])

def Num.text : Num → List Char
  | .int i => Text.signedDigits i
  | .float x => x.scientificText

mutual

def Value.text : Value → List Char
  | .null => "null".toList
  | .bool true => "true".toList
  | .bool false => "false".toList
  | .number n => n.text
  | .string s => stringText s
  | .array [] => "[]".toList
  | .array (v :: rest) => '[' :: (v.text ++ (itemsText rest ++ [']']))
  | .object [] => [Char.ofNat 0x7B, Char.ofNat 0x7D]
  | .object ((n, v) :: rest) =>
    Char.ofNat 0x7B ::
      (stringText n ++ (':' :: (v.text ++ (membersText rest ++ [Char.ofNat 0x7D]))))

/-- The items after the first, each after a comma. -/
def itemsText : List Value → List Char
  | [] => []
  | v :: rest => ',' :: (v.text ++ itemsText rest)

/-- The members after the first, each after a comma. -/
def membersText : List (String × Value) → List Char
  | [] => []
  | (n, v) :: rest => ',' :: (stringText n ++ (':' :: (v.text ++ membersText rest)))

end

def Value.toText (v : Value) : String := String.ofList v.text

end Json
end MarketFeed
