import MarketFeed.Binary64.Basic

/-!
# MarketFeed.Json.Tree

JSON documents at two levels.

* `Tree` — what a text says: members in order and repeated, and placeholders where a string or a
  number denotes nothing. A part that nobody reads may hold such a placeholder.
* `Value` — what a document means: every string and number is one, and the members of an object
  are sorted by name, each name once.
* `Tree.value?` — the meaning of a document, if it has one and is not nested too deeply.
-/

namespace MarketFeed
namespace Json

/-- A number: an integer of 64 bits, signed or unsigned, or a finite double. -/
inductive Num where
  | int (i : Int)
  | float (x : Binary64)
  deriving DecidableEq, Repr

/-- A JSON document as written. A number out of range and a string with an unpaired surrogate are
`none`. -/
inductive Tree where
  | null
  | bool (b : Bool)
  | number (n : Option Num)
  | string (s : Option String)
  | array (items : List Tree)
  | object (members : List (Option String × Tree))
  deriving Inhabited

/-- A JSON value. -/
inductive Value where
  | null
  | bool (b : Bool)
  | number (n : Num)
  | string (s : String)
  | array (items : List Value)
  | object (members : List (String × Value))
  deriving Inhabited, Repr

/-- The members of an object: sorted by name, each name once. -/
abbrev Members := List (String × Value)

/-- Sets a member, replacing the one of the same name. -/
def Members.insert (name : String) (v : Value) : Members → Members
  | [] => [(name, v)]
  | (n, w) :: rest =>
    if name < n then (name, v) :: (n, w) :: rest
    else if name = n then (name, v) :: rest
    else (n, w) :: Members.insert name v rest

/-- The members of a list of assignments; of repeated names the last one counts. -/
def Members.ofList (l : List (String × Value)) : Members :=
  l.foldl (fun ms m => Members.insert m.1 m.2 ms) []

def Members.get? (ms : Members) (name : String) : Option Value :=
  (ms.find? (·.1 == name)).map (·.2)

def Value.ofInt (i : Int) : Value := .number (.int i)

def Value.ofNat (n : Nat) : Value := .number (.int n)

/-- An object of members given in any order. -/
def Value.record (l : List (String × Value)) : Value := .object (Members.ofList l)

def Value.ofOption {α : Type} (f : α → Value) : Option α → Value
  | none => .null
  | some a => f a

/-- The most containers that may be open at one place of a document. -/
def maxDepth : Nat := 127

mutual

/-- The meaning of a document inside of which `room` containers may be open at once. -/
def Tree.valueWithin? (room : Nat) : Tree → Option Value
  | .null => some .null
  | .bool b => some (.bool b)
  | .number n => n.map .number
  | .string s => s.map .string
  | .array items =>
    match room with
    | 0 => none
    | room + 1 => (itemsWithin? room items).map .array
  | .object members =>
    match room with
    | 0 => none
    | room + 1 => (membersWithin? room members).map .record

def itemsWithin? (room : Nat) : List Tree → Option (List Value)
  | [] => some []
  | t :: rest =>
    match t.valueWithin? room, itemsWithin? room rest with
    | some v, some vs => some (v :: vs)
    | _, _ => none

def membersWithin? (room : Nat) : List (Option String × Tree) → Option (List (String × Value))
  | [] => some []
  | (name, t) :: rest =>
    match name, t.valueWithin? room, membersWithin? room rest with
    | some n, some v, some vs => some ((n, v) :: vs)
    | _, _, _ => none

end

def Tree.value? (t : Tree) : Option Value := t.valueWithin? maxDepth

mutual

/-- A value read as a document. -/
def Value.tree : Value → Tree
  | .null => .null
  | .bool b => .bool b
  | .number n => .number (some n)
  | .string s => .string (some s)
  | .array items => .array (treesOf items)
  | .object members => .object (memberTreesOf members)

def treesOf : List Value → List Tree
  | [] => []
  | v :: rest => v.tree :: treesOf rest

def memberTreesOf : List (String × Value) → List (Option String × Tree)
  | [] => []
  | (n, v) :: rest => (some n, v.tree) :: memberTreesOf rest

end

end Json
end MarketFeed
