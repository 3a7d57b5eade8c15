import MarketFeed.Time.Instant
import MarketFeed.Text.Blank
import MarketFeed.Text.Digits

/-!
# MarketFeed.Time.Text

Moments as text, after RFC 3339.

* `Instant.text` — in universal time, with 0, 3, 6 or 9 digits of the second, the fewest that are
  exact. A year outside 0 to 9999 has a sign and at least five digits with it.
* `Instant.read?` — blanks between the parts, short fields, signed years, any offset from
  universal time below a day, and second 60 at the end of any minute are accepted.
-/

namespace MarketFeed
namespace Instant

/-! ## Writing -/

def yearChars (year : Int) : List Char :=
  if 0 ≤ year ∧ year ≤ 9999 then Text.paddedDigits 4 year.natAbs
  else (if year < 0 then '-' else '+') :: Text.paddedDigits 4 year.natAbs

/-- The fraction of a second, after a point. -/
def fractionChars (nanos : Nat) : List Char :=
  if nanos = 0 then []
  else if nanos % 1000000 = 0 then '.' :: Text.paddedDigits 3 (nanos / 1000000)
  else if nanos % 1000 = 0 then '.' :: Text.paddedDigits 6 (nanos / 1000)
  else '.' :: Text.paddedDigits 9 nanos

def chars (t : Instant) : List Char :=
  let d := Date.ofDay t.day
  let two := Text.paddedDigits 2
  let second := if 1000000000 ≤ t.nanos then t.second % 60 + 1 else t.second % 60
  yearChars d.year ++ ('-' :: two d.month) ++ ('-' :: two d.day) ++
    ('T' :: two (t.second / 3600)) ++ (':' :: two (t.second / 60 % 60)) ++ (':' :: two second) ++
    fractionChars (t.nanos % 1000000000) ++ ['Z']

def text (t : Instant) : String := String.ofList t.chars

/-! ## Reading -/

/-- At least one and at most `most` digits, and the rest. -/
def readNumber? (most : Nat) (cs : List Char) : Option (Nat × List Char) :=
  let ds := (cs.take most).takeWhile Text.isDigit
  if ds = [] then none else some (Text.number ds, cs.drop ds.length)

/-- A field of at most two digits, after blanks. -/
def readField? (cs : List Char) : Option (Nat × List Char) :=
  readNumber? 2 (Text.trimStart cs)

/-- A mark after blanks. -/
def readMark? (mark : Char) (cs : List Char) : Option (List Char) :=
  match Text.trimStart cs with
  | c :: rest => if c = mark then some rest else none
  | [] => none

/-- A year: four digits at most, or a sign and any number of digits. -/
def readYear? (cs : List Char) : Option (Int × List Char) :=
  match Text.trimStart cs with
  | '-' :: rest => (readNumber? rest.length rest).map fun r => (-(r.1 : Int), r.2)
  | '+' :: rest => (readNumber? rest.length rest).map fun r => ((r.1 : Int), r.2)
  | cs => (readNumber? 4 cs).map fun r => ((r.1 : Int), r.2)

/-- An optional fraction of a second in nanoseconds; digits beyond the ninth are passed over. -/
def readFraction? (cs : List Char) : Option (Nat × List Char) :=
  match cs with
  | '.' :: rest =>
    let ds := rest.takeWhile Text.isDigit
    if ds = [] then none
    else
      let kept := ds.take 9
      some (Text.number kept * Nat.pow 10 (9 - kept.length), rest.drop ds.length)
  | cs => some (0, cs)

/-- Two digits. -/
def readPair? (cs : List Char) : Option (Nat × List Char) :=
  match cs with
  | a :: b :: rest =>
    if Text.isDigit a && Text.isDigit b then some (Text.number [a, b], rest) else none
  | _ => none

/-- The offset from universal time in seconds: `Z`, `UTC`, or a sign, hours and minutes, with any
blanks and colons between these. -/
def readOffset? (cs : List Char) : Option (Int × List Char) :=
  match cs with
  | 'Z' :: rest => some (0, rest)
  | 'z' :: rest => some (0, rest)
  | cs =>
    if (cs.take 3).map Char.toUpper = ['U', 'T', 'C'] then some (0, cs.drop 3)
    else
      match cs with
      | [] => none
      | c :: rest =>
        if c = '+' ∨ c = '-' ∨ c = Char.ofNat 0x2212 then
          (readPair? rest).bind fun (hours, rest) =>
            let rest := rest.dropWhile fun c => c = ':' || Text.isBlank c
            (readPair? rest).bind fun (minutes, rest) =>
              if minutes < 60 then
                let seconds : Int := hours * 3600 + minutes * 60
                some (if c = '+' then seconds else -seconds, rest)
              else none
        else none

/-- A local time, its fields in range. -/
structure Clock where
  hour : Nat
  minute : Nat
  second : Nat
  nanos : Nat
  deriving DecidableEq, Repr

def Clock.Valid (c : Clock) : Prop := c.hour < 24 ∧ c.minute < 60 ∧ c.second ≤ 60

instance (c : Clock) : Decidable c.Valid := by unfold Clock.Valid; infer_instance

/-- The moment of a local date and time that are `offset` seconds ahead of universal time. Second
60 is a leap second. -/
def ofLocal? (d : Date) (c : Clock) (offset : Int) : Option Instant :=
  if d.Valid ∧ c.Valid ∧ offset.natAbs < 86400 ∧ firstDay ≤ d.toDay ∧ d.toDay ≤ lastDay then
    let leap := c.second = 60
    let second : Int := c.hour * 3600 + c.minute * 60 + (if leap then 59 else c.second)
    let total := d.toDay * 86400 + second - offset
    ofParts? (total / 86400) (total % 86400).toNat (if leap then c.nanos + 1000000000 else c.nanos)
  else none

def readDate? (cs : List Char) : Option (Date × List Char) := do
  let (year, cs) ← readYear? cs
  let cs ← readMark? '-' cs
  let (month, cs) ← readField? cs
  let cs ← readMark? '-' cs
  let (day, cs) ← readField? cs
  some (⟨year, month, day⟩, cs)

def readClock? (cs : List Char) : Option (Clock × List Char) := do
  let (hour, cs) ← readField? cs
  let cs ← readMark? ':' cs
  let (minute, cs) ← readField? cs
  let cs ← readMark? ':' cs
  let (second, cs) ← readField? cs
  let (nanos, cs) ← readFraction? cs
  some (⟨hour, minute, second, nanos⟩, cs)

def isDateEnd (c : Char) : Bool := c = 'T' || c = 't' || c = ' '

def read? (cs : List Char) : Option Instant :=
  (readDate? cs).bind fun (date, cs) =>
    match cs with
    | c :: cs =>
      if isDateEnd c then
        (readClock? cs).bind fun (clock, cs) =>
          (readOffset? (Text.trimStart cs)).bind fun (offset, cs) =>
            if Text.trimStart cs = [] then ofLocal? date clock offset else none
      else none
    | [] => none

def ofText? (s : String) : Option Instant := read? s.toList

end Instant
end MarketFeed
