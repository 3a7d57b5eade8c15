import MarketFeed.Json.Tree
import MarketFeed.Decimal.Reader
import MarketFeed.Time.Text

/-!
# MarketFeed.Json.Record

Typed reading of documents.

* `fields?` — the parts of a record, from an object or from an array in the order of the fields.
* `Tree.text?`, `Tree.natBelow?`, `Tree.decimal?`, … — the types of single fields.
* `variant?` — the name of an alternative and its content.

A record refuses repeated known fields and passes over unknown ones. Its array form has exactly
one item per field; a last field with a default may be left out.
-/

namespace MarketFeed
namespace Json

/-! ## Single values -/

def Tree.text? : Tree → Option String
  | .string s => s
  | _ => none

def Tree.bool? : Tree → Option Bool
  | .bool b => some b
  | _ => none

def Tree.int? : Tree → Option Int
  | .number (some (.int i)) => some i
  | _ => none

/-- A natural number below a bound, written as an integer. -/
def Tree.natBelow? (bound : Nat) (t : Tree) : Option Nat :=
  t.int?.bind fun i => if 0 ≤ i ∧ i < bound then some i.toNat else none

def Tree.word64? (t : Tree) : Option Nat := t.natBelow? 18446744073709551616

def Tree.word32? (t : Tree) : Option Nat := t.natBelow? 4294967296

def Tree.word16? (t : Tree) : Option Nat := t.natBelow? 65536

/-- A signed integer of 64 bits. -/
def Tree.int64? (t : Tree) : Option Int :=
  t.int?.bind fun i => if -9223372036854775808 ≤ i ∧ i < 9223372036854775808 then some i else none

/-- A decimal, as a string or as a number. -/
def Tree.decimal? : Tree → Option Decimal
  | .string (some s) => Decimal.ofText? s
  | .number (some n) => Decimal.ofNum? n
  | _ => none

def Tree.instant? (t : Tree) : Option Instant := t.text?.bind Instant.ofText?

/-- A map of untyped values, inside of which `room` containers may be open. -/
def Tree.membersWithin? (room : Nat) (t : Tree) : Option Members :=
  match t with
  | .object _ =>
    match t.valueWithin? room with
    | some (.object ms) => some ms
    | _ => none
  | _ => none

/-- A list of equal parts. -/
def Tree.list? {α : Type} (f : Tree → Option α) : Tree → Option (List α)
  | .array items => items.mapM f
  | _ => none

/-- A pair as an array of two. -/
def Tree.pair? {α β : Type} (f : Tree → Option α) (g : Tree → Option β) : Tree → Option (α × β)
  | .array [a, b] =>
    match f a, g b with
    | some a, some b => some (a, b)
    | _, _ => none
  | _ => none

/-! ## Fields -/

/-- A field that has to be there. -/
def required? {α : Type} (f : Tree → Option α) (field : Option Tree) : Option α := field.bind f

/-- A field that may be left out or null. -/
def optional? {α : Type} (f : Tree → Option α) (field : Option Tree) : Option (Option α) :=
  match field with
  | none => some none
  | some .null => some none
  | some t => (f t).map some

/-- A field with a default that may be left out, but not null. -/
def defaulted? {α : Type} (f : Tree → Option α) (default : α) (field : Option Tree) : Option α :=
  match field with
  | none => some default
  | some t => f t

/-- The values of all members of a name. -/
def valuesOf (name : String) (members : List (Option String × Tree)) : List Tree :=
  (members.filter fun m => m.1 == some name).map (·.2)

/-- The fields of an object in the order of `names`; none if a name is no text or a known name is
repeated. -/
def objectFields? (names : List String) (members : List (Option String × Tree)) :
    Option (List (Option Tree)) :=
  if members.any fun m => m.1.isNone then none
  else names.mapM fun n =>
    match valuesOf n members with
    | [] => some none
    | [t] => some (some t)
    | _ => none

/-- The parts of a record, one per name. In an array the last may be missing if `lastDefaulted`. -/
def fields? (names : List String) (lastDefaulted : Bool) : Tree → Option (List (Option Tree))
  | .array items =>
    if items.length = names.length then some (items.map some)
    else if lastDefaulted ∧ items.length + 1 = names.length then some (items.map some ++ [none])
    else none
  | .object members => objectFields? names members
  | _ => none

/-! ## Alternatives -/

/-- The name of an alternative: a string, or an object whose one member holds the content. -/
def variant? : Tree → Option (String × Option Tree)
  | .string (some name) => some (name, none)
  | .object [(some name, t)] => some (name, some t)
  | _ => none

/-- The content of an alternative that has none is left out or null. -/
def isUnit : Option Tree → Bool
  | none => true
  | some .null => true
  | _ => false

/-! ## Spans -/

/-- A span as `secs` and `nanos`, both required, in an object without other members or an array.
Nanoseconds beyond a second are carried. -/
def Tree.span? (t : Tree) : Option Span :=
  let names := ["secs", "nanos"]
  let known := match t with
    | .object members => members.all fun m => names.any fun n => m.1 == some n
    | _ => true
  if known then
    match fields? names false t with
    | some [secs, nanos] =>
      match required? Tree.word64? secs, required? Tree.word32? nanos with
      | some s, some n => Span.ofParts? s n
      | _, _ => none
    | _ => none
  else none

def Value.ofSpan (s : Span) : Value :=
  .record [("secs", .ofNat s.seconds), ("nanos", .ofNat s.nanos)]

def Value.ofDecimal (d : Decimal) : Value := .string d.text

def Value.ofInstant (t : Instant) : Value := .string t.text

end Json
end MarketFeed
