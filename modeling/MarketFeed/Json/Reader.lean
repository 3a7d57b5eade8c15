import MarketFeed.Json.Number

/-!
# MarketFeed.Json.Reader

Reading JSON texts (RFC 8259) in two passes over lists.

* `tokens?` — the tokens of a text, by a machine that takes one character at a time.
* `build?` — the document of some tokens, by a machine that takes one token at a time and keeps
  the containers that are still open.
* `read?` — both: the document that a whole text is, or none.
* `decode?` — its meaning.

Both machines are folds, so a run over an appended input is the run over the first part followed
by the run over the second.
-/

namespace MarketFeed
namespace Json

/-! ## Strings -/

def hexValue? (c : Char) : Option Nat :=
  let n := c.toNat
  if 48 ≤ n ∧ n ≤ 57 then some (n - 48)
  else if 97 ≤ n ∧ n ≤ 102 then some (n - 87)
  else if 65 ≤ n ∧ n ≤ 70 then some (n - 55)
  else none

def hex4? (a b c d : Char) : Option Nat :=
  match hexValue? a, hexValue? b, hexValue? c, hexValue? d with
  | some a, some b, some c, some d => some (a * 0x1000 + b * 0x100 + c * 0x10 + d)
  | _, _, _, _ => none

/-- The character of a backslash and one more character. -/
def simpleEscape? (c : Char) : Option Char :=
  if c = '"' then some '"'
  else if c = '\\' then some '\\'
  else if c = '/' then some '/'
  else if c = 'b' then some (Char.ofNat 8)
  else if c = 'f' then some (Char.ofNat 12)
  else if c = 'n' then some (Char.ofNat 10)
  else if c = 'r' then some (Char.ofNat 13)
  else if c = 't' then some (Char.ofNat 9)
  else none

def isHighSurrogate (n : Nat) : Bool := 0xD800 ≤ n && n ≤ 0xDBFF

def isLowSurrogate (n : Nat) : Bool := 0xDC00 ≤ n && n ≤ 0xDFFF

/-- The character of a surrogate pair. -/
def paired (high low : Nat) : Char :=
  Char.ofNat (0x10000 + (high - 0xD800) * 0x400 + (low - 0xDC00))

/-- Puts a character in front of the rest, unless a high surrogate before it lacks its partner. -/
def putChar (high : Option Nat) (c : Char) (rest : Option (List Char)) : Option (List Char) :=
  if high.isSome then none else rest.map (c :: ·)

/-- The text between two quotes, after the high surrogate `high` if there is one. The outer `none`
is a malformed escape, the inner one a surrogate without its partner. -/
def unescapeAfter (high : Option Nat) : List Char → Option (Option (List Char))
  | [] => some (if high.isSome then none else some [])
  | '\\' :: 'u' :: a :: b :: c :: d :: rest =>
    match hex4? a b c d with
    | none => none
    | some n =>
      if isHighSurrogate n then
        (unescapeAfter (some n) rest).map fun r => if high.isSome then none else r
      else if isLowSurrogate n then
        (unescapeAfter none rest).map fun r =>
          match high with
          | some h => r.map (paired h n :: ·)
          | none => none
      else (unescapeAfter none rest).map (putChar high (Char.ofNat n))
  | '\\' :: c :: rest =>
    match simpleEscape? c with
    | some c => (unescapeAfter none rest).map (putChar high c)
    | none => none
  | ['\\'] => none
  | c :: rest =>
    if c.toNat < 0x20 then none else (unescapeAfter none rest).map (putChar high c)

def unescape (cs : List Char) : Option (Option (List Char)) := unescapeAfter none cs

/-! ## Tokens -/

inductive Token where
  | beginObject
  | endObject
  | beginArray
  | endArray
  | comma
  | colon
  | word (cs : List Char)
  | string (s : Option String)
  deriving DecidableEq, Repr

/-- Where the scanner stands; the characters of an unfinished token are kept last first. -/
inductive Mode where
  | between
  | inWord (reversed : List Char)
  | inString (reversed : List Char)
  | afterBackslash (reversed : List Char)
  deriving DecidableEq, Repr

/-- The scanner: its mode and the finished tokens, last first. -/
structure Scanner where
  mode : Mode
  done : List Token
  deriving Repr

def isSpace (c : Char) : Bool := c = ' ' || c = '\t' || c = '\n' || c = '\r'

/-- The characters of literals and numbers. -/
def isWordChar (c : Char) : Bool :=
  c.isAlphanum || c = '+' || c = '-' || c = '.'

def punctuation? (c : Char) : Option Token :=
  match c with
  | '[' => some .beginArray
  | ']' => some .endArray
  | ',' => some .comma
  | ':' => some .colon
  | c =>
    if c = Char.ofNat 0x7B then some .beginObject
    else if c = Char.ofNat 0x7D then some .endObject
    else none

/-- One character from between two tokens. -/
def Scanner.between (done : List Token) (c : Char) : Option Scanner :=
  if isSpace c then some ⟨.between, done⟩
  else if c = '"' then some ⟨.inString [], done⟩
  else if isWordChar c then some ⟨.inWord [c], done⟩
  else (punctuation? c).map fun t => ⟨.between, t :: done⟩

def Scanner.step (s : Scanner) (c : Char) : Option Scanner :=
  match s.mode with
  | .between => Scanner.between s.done c
  | .inWord cs =>
    if isWordChar c then some ⟨.inWord (c :: cs), s.done⟩
    else Scanner.between (.word cs.reverse :: s.done) c
  | .inString cs =>
    if c = '"' then
      (unescape cs.reverse).map fun r => ⟨.between, .string (r.map String.ofList) :: s.done⟩
    else if c = '\\' then some ⟨.afterBackslash (c :: cs), s.done⟩
    else some ⟨.inString (c :: cs), s.done⟩
  | .afterBackslash cs => some ⟨.inString (c :: cs), s.done⟩

def Scanner.finish? (s : Scanner) : Option (List Token) :=
  match s.mode with
  | .between => some s.done.reverse
  | .inWord cs => some (.word cs.reverse :: s.done).reverse
  | _ => none

def tokens? (text : List Char) : Option (List Token) :=
  (text.foldlM Scanner.step ⟨.between, []⟩).bind Scanner.finish?

/-! ## Documents -/

/-- A container that is still open; its finished parts are kept last first. -/
inductive Open where
  | array (items : List Tree)
  | object (members : List (Option String × Tree))
  /-- An object in which the value of the member of this name is due. -/
  | member (members : List (Option String × Tree)) (name : Option String)

/-- What may come next. -/
inductive Expect where
  /-- A value, or the end of the array that was just opened. -/
  | firstItem
  | item
  /-- A member's name, or the end of the object that was just opened. -/
  | firstName
  | name
  | colon
  /-- A comma or the end of the innermost container. -/
  | separator
  /-- Nothing: the document is complete. -/
  | nothing
  deriving DecidableEq, Repr

/-- The builder: the open containers, innermost first, what may come next, and the document when
it is complete. -/
structure Builder where
  openings : List Open
  expect : Expect
  result : Option Tree

def Builder.start : Builder := ⟨[], .item, none⟩

/-- A finished value goes into the innermost open container. -/
def Builder.put (openings : List Open) (t : Tree) : Builder :=
  match openings with
  | [] => ⟨[], .nothing, some t⟩
  | .array items :: rest => ⟨.array (t :: items) :: rest, .separator, none⟩
  | .object members :: rest => ⟨.object members :: rest, .separator, none⟩
  | .member members name :: rest => ⟨.object ((name, t) :: members) :: rest, .separator, none⟩

def wordTree? (cs : List Char) : Option Tree :=
  if cs = ['n', 'u', 'l', 'l'] then some .null
  else if cs = ['t', 'r', 'u', 'e'] then some (.bool true)
  else if cs = ['f', 'a', 'l', 's', 'e'] then some (.bool false)
  else (Literal.read? cs).map fun l => .number l.num?

/-- A token where a value may stand. -/
def Builder.value? (b : Builder) (t : Token) : Option Builder :=
  match t with
  | .beginArray => some ⟨.array [] :: b.openings, .firstItem, none⟩
  | .beginObject => some ⟨.object [] :: b.openings, .firstName, none⟩
  | .string s => some (.put b.openings (.string s))
  | .word cs => (wordTree? cs).map (.put b.openings)
  | _ => none

/-- The innermost container, finished. -/
def Builder.close? (b : Builder) (t : Token) : Option Builder :=
  match t, b.openings with
  | .endArray, .array items :: rest => some (.put rest (.array items.reverse))
  | .endObject, .object members :: rest => some (.put rest (.object members.reverse))
  | _, _ => none

def Builder.name? (b : Builder) (t : Token) : Option Builder :=
  match t, b.openings with
  | .string s, .object members :: rest => some ⟨.member members s :: rest, .colon, none⟩
  | _, _ => none

def Builder.step (b : Builder) (t : Token) : Option Builder :=
  match b.expect with
  | .item => b.value? t
  | .firstItem => if t = .endArray then b.close? t else b.value? t
  | .name => b.name? t
  | .firstName => if t = .endObject then b.close? t else b.name? t
  | .colon => if t = .colon then some { b with expect := .item } else none
  | .separator =>
    if t = .comma then
      match b.openings with
      | .array _ :: _ => some { b with expect := .item }
      | .object _ :: _ => some { b with expect := .name }
      | _ => none
    else b.close? t
  | .nothing => none

def build? (ts : List Token) : Option Tree :=
  (ts.foldlM Builder.step .start).bind (·.result)

/-- The document that a whole text is. -/
def read? (text : List Char) : Option Tree := (tokens? text).bind build?

/-- The value that a whole text denotes. -/
def decode? (text : List Char) : Option Value := (read? text).bind Tree.value?

end Json
end MarketFeed
