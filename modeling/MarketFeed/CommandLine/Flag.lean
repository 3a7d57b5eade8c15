import MarketFeed.Market.Interval
import MarketFeed.Text.Integer

/-!
# MarketFeed.CommandLine.Flag

* `Flag` — an option: its name, and what it takes.
* `Content` — what its values may be.
* `Flag.fault?` — what is wrong with a value.
-/

namespace MarketFeed
namespace CommandLine

/-- What may stand as a value. -/
inductive Content where
  | text
  | interval
  /-- A number of at most so many bits, where larger numbers are recognised as such. -/
  | bounded (bits : Nat)
  /-- A number of at most 64 bits. -/
  | count
  deriving DecidableEq, Repr

/-- What an option takes. -/
inductive Arity where
  | nothing
  | once
  /-- Any number of times, each time a list with commas. -/
  | list
  deriving DecidableEq, Repr

/-- An option. -/
structure Flag where
  name : String
  letter : Option Char
  arity : Arity
  content : Content
  /-- The environment variable that stands in for it. -/
  environment : Option String
  required : Bool
  deriving DecidableEq, Repr

namespace Content

/-- The largest number of so many bits. -/
def limit (bits : Nat) : Nat := Nat.pow 2 bits - 1

/-- Why a text is no such value; none if it is one. -/
def fault? (c : Content) (value : String) : Option String :=
  match c with
  | .text => none
  | .interval =>
    match Interval.parse value with
    | .ok _ => none
    | .error e => some e.message
  | .bounded bits =>
    match Text.integer 9223372036854775808 (limit 63) value.toList with
    | .error e => some e.message
    | .ok n =>
      if 0 ≤ n ∧ n ≤ limit bits then none
      else some (toString n ++ " is not in 0..=" ++ toString (limit bits))
  | .count =>
    match Text.integer 0 (limit 64) value.toList with
    | .error e => some e.message
    | .ok _ => none

end Content

namespace Flag

/-- A dash in a name becomes an underscore in the name of its value. -/
def placeholder (name : String) : String :=
  String.ofList (name.toList.map fun c => if c = '-' then '_' else c.toUpper)

/-- As it is shown to the user. -/
def label (f : Flag) : String :=
  if f.arity = .nothing then "--" ++ f.name
  else "--" ++ f.name ++ " <" ++ placeholder f.name ++ ">"

/-- The parts of a text between commas. -/
def parts (value : String) : List String :=
  let step (c : Char) (l : List (List Char)) : List (List Char) :=
    match l with
    | [] => [[c]]
    | p :: rest => if c = ',' then [] :: p :: rest else (c :: p) :: rest
  (value.toList.foldr step [[]]).map String.ofList

/-- The values in a text. -/
def values (f : Flag) (value : String) : List String :=
  match f.arity with
  | .list => parts value
  | _ => [value]

end Flag
end CommandLine
end MarketFeed
