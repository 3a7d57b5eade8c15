import MarketFeed.Json.Record
import MarketFeed.Text.Blank

/-!
# MarketFeed.Market.Interval

The lengths of time that bars cover.

* `Interval` — some seconds, minutes or hours, a day, a week, or a month.
* `Interval.code` — the short code, a count and a unit.
* `Interval.parse` — reads a code, blanks around it allowed; the count may have a plus sign and
  leading zeros, and is never zero.
-/

namespace MarketFeed

inductive Interval where
  | second (n : UInt32)
  | minute (n : UInt32)
  | hour (n : UInt32)
  | daily
  | weekly
  | monthly
  deriving DecidableEq, Repr, Inhabited

/-- A text that is no interval code, without the blanks around it. -/
structure IntervalError where
  text : String
  deriving DecidableEq, Repr

def IntervalError.message (e : IntervalError) : String := "invalid interval code: " ++ e.text

namespace Interval

def codeChars : Interval → List Char
  | .second n => Text.digits n.toNat ++ ['s']
  | .minute n => Text.digits n.toNat ++ ['m']
  | .hour n => Text.digits n.toNat ++ ['h']
  | .daily => ['1', 'd']
  | .weekly => ['1', 'w']
  | .monthly => ['1', 'M']

def code (i : Interval) : String := String.ofList i.codeChars

/-- Seconds in one interval; a month counts as 30 days. -/
def seconds : Interval → Nat
  | .second n => n.toNat
  | .minute n => n.toNat * 60
  | .hour n => n.toNat * 3600
  | .daily => 86400
  | .weekly => 7 * 86400
  | .monthly => 30 * 86400

def ofUnit? (unit : Char) (n : UInt32) : Option Interval :=
  if unit = 's' then some (.second n)
  else if unit = 'm' then some (.minute n)
  else if unit = 'h' then some (.hour n)
  else none

/-- Reads a code without blanks around it. -/
def ofCode? (cs : List Char) : Option Interval :=
  if cs = ['1', 'd'] then some .daily
  else if cs = ['1', 'w'] then some .weekly
  else if cs = ['1', 'M'] then some .monthly
  else
    match cs.getLast? with
    | none => none
    | some unit =>
      (Decimal.word32? cs.dropLast).bind fun n =>
        if n = 0 then none else ofUnit? unit (UInt32.ofNat n)

def parse (s : String) : Except IntervalError Interval :=
  let cs := Text.trim s.toList
  match ofCode? cs with
  | some i => .ok i
  | none => .error ⟨String.ofList cs⟩

def ofTree? (t : Json.Tree) : Option Interval :=
  (Json.variant? t).bind fun (name, content) =>
    let count (f : UInt32 → Interval) : Option Interval :=
      (Json.required? Json.Tree.word32? content).map fun n => f (UInt32.ofNat n)
    let unit (i : Interval) : Option Interval := if Json.isUnit content then some i else none
    if name = "second" then count .second
    else if name = "minute" then count .minute
    else if name = "hour" then count .hour
    else if name = "daily" then unit .daily
    else if name = "weekly" then unit .weekly
    else if name = "monthly" then unit .monthly
    else none

def value : Interval → Json.Value
  | .second n => .record [("second", .ofNat n.toNat)]
  | .minute n => .record [("minute", .ofNat n.toNat)]
  | .hour n => .record [("hour", .ofNat n.toNat)]
  | .daily => .string "daily"
  | .weekly => .string "weekly"
  | .monthly => .string "monthly"

end Interval
end MarketFeed
