/-!
# MarketFeed.CommandLine.Argument

* `Argument` — the shapes of a single argument.
* `Argument.ofText` — its shape: a word, one or more letters after a dash, a name after two dashes,
  or two dashes alone.
-/

namespace MarketFeed
namespace CommandLine

inductive Argument where
  /-- Two dashes: only words follow. -/
  | separator
  /-- A name, and what follows the first equals sign if there is one. -/
  | long (name : String) (value : Option String)
  | letters (first : Char) (rest : List Char)
  | word
  deriving DecidableEq, Repr

namespace Argument

def longOf (cs : List Char) : Argument :=
  let name := String.ofList (cs.takeWhile (· ≠ '='))
  match cs.dropWhile (· ≠ '=') with
  | [] => .long name none
  | _ :: value => .long name (some (String.ofList value))

def ofText (text : String) : Argument :=
  match text.toList with
  | ['-', '-'] => .separator
  | '-' :: '-' :: cs => longOf cs
  | '-' :: c :: cs => .letters c cs
  | _ => .word

end Argument
end CommandLine
end MarketFeed
