import MarketFeed.CommandLine.Argument
import MarketFeed.CommandLine.Error
import MarketFeed.CommandLine.Flag

/-!
# MarketFeed.CommandLine.Reader

How arguments are read: options with their values, and then perhaps a command.

* `Given` — the options that were given, with their values.
* `Grammar` — the options and commands that may stand.
* `Grammar.scan` — reads arguments up to a command or their end.
* `Grammar.complete` — what the environment adds, and what must not be missing.

A value that stands alone is looked at only when the next option comes, or at the end; an argument
that is out of place is therefore told of first.
-/

namespace MarketFeed
namespace CommandLine

/-- Why arguments are not read on. -/
inductive Stop where
  | help
  /-- There was nothing to read. -/
  | silence
  | version
  | usage (e : UsageError)
  deriving DecidableEq, Repr

structure Given where
  /-- The options by name; an option that takes nothing has no values. -/
  values : List (String × List String)
  /-- An option whose value is to come, or was not looked at yet. -/
  pending : Option (Flag × Option String)
  deriving DecidableEq, Repr

namespace Given

def empty : Given := ⟨[], none⟩

def has (g : Given) (name : String) : Bool := g.values.any (·.1 = name)

/-- All values of an option in the order in which they stood. -/
def all (g : Given) (name : String) : List String :=
  (g.values.filter (·.1 = name)).flatMap (·.2)

def get? (g : Given) (name : String) : Option String := (g.all name).head?

/-- The first of some values that may not stand. -/
def fault? (f : Flag) : List String → Option UsageError
  | [] => none
  | v :: rest =>
    match f.content.fault? v with
    | some reason => some (.invalidValue v f.label reason)
    | none => fault? f rest

/-- Takes an option with its text, if it takes one. -/
def add (g : Given) (f : Flag) (text : Option String) : Except Stop Given :=
  let values := (text.map f.values).getD []
  if f.name = "help" then .error .help
  else if f.name = "version" then .error .version
  else if f.arity ≠ .list && g.has f.name then .error (.usage (.repeated f.label))
  else
    match fault? f values with
    | some e => .error (.usage e)
    | none => .ok { g with values := g.values ++ [(f.name, values)] }

/-- Looks at the pending option. -/
def settle (g : Given) : Except Stop Given :=
  match g.pending with
  | none => .ok g
  | some (f, none) => .error (.usage (.missingValue f.label))
  | some (f, some text) => { g with pending := none }.add f (some text)

/-- Takes an option whose text is there already, or that takes none. -/
def take (g : Given) (f : Flag) (text : Option String) : Except Stop Given :=
  g.settle.bind fun g => g.add f text

/-- Takes an option whose text is the next argument. -/
def await (g : Given) (f : Flag) : Except Stop Given :=
  g.settle.map fun g => { g with pending := some (f, none) }

/-- The option whose value is the next argument. -/
def awaited? (g : Given) : Option Flag :=
  match g.pending with
  | some (f, none) => some f
  | _ => none

end Given

structure Grammar where
  flags : List Flag
  commands : List String
  deriving DecidableEq, Repr

namespace Grammar

variable (r : Grammar)

def long? (name : String) : Option Flag := r.flags.find? (·.name = name)

def letter? (c : Char) : Option Flag := r.flags.find? (·.letter = some c)

/-- An option by its name. -/
def scanLong (name : String) (value : Option String) (g : Given) : Except Stop Given :=
  match r.long? name, value with
  | none, _ => .error (.usage (.unexpected ("--" ++ name)))
  | some f, some value =>
    if f.arity = .nothing then .error (.usage (.unneededValue value f.label))
    else g.take f (some value)
  | some f, none => if f.arity = .nothing then g.take f none else g.await f

/-- The letters after one dash. A letter that takes a value takes the rest as its text, of which an
equals sign in front is no part. -/
def scanLetters : Char → List Char → Given → Except Stop Given
  | c, cs, g =>
    match r.letter? c with
    | none => .error (.usage (.unexpected (String.ofList ['-', c])))
    | some f =>
      if f.arity = .nothing then
        match cs with
        | [] => g.take f none
        | d :: cs => (g.take f none).bind (scanLetters d cs)
      else
        match cs with
        | [] => g.await f
        | '=' :: value => g.take f (some (String.ofList value))
        | value => g.take f (some (String.ofList value))

/-- A word that is no value. -/
def strayWord (afterSeparator : Bool) (word : String) : UsageError :=
  if r.commands.isEmpty || (afterSeparator && r.commands.contains word) then .unexpected word
  else .unknownCommand word

/-- What was given before a command or the end, and the command with the arguments after it. -/
def scan : List String → Bool → Given → Except Stop (Given × Option (String × List String))
  | [], _, g => .ok (g, none)
  | a :: _, true, _ => .error (.usage (r.strayWord true a))
  | a :: rest, false, g =>
    if g.awaited?.isNone && r.commands.contains a then .ok (g, some (a, rest))
    else
      match Argument.ofText a with
      | .separator => scan rest true g
      | .long name value => (r.scanLong name value g).bind (scan rest false)
      | .letters c cs => (r.scanLetters c cs g).bind (scan rest false)
      | .word =>
        match g.awaited? with
        | some f => scan rest false { g with pending := some (f, some a) }
        | none => .error (.usage (r.strayWord false a))

/-- Adds the options that only the environment gives. -/
def addVariables (environment : List (String × String)) : List Flag → Given → Except Stop Given
  | [], g => .ok g
  | f :: rest, g =>
    match f.environment.bind fun name => environment.lookup name with
    | some text =>
      if g.has f.name then addVariables environment rest g
      else (g.add f (some text)).bind (addVariables environment rest)
    | none => addVariables environment rest g

/-- The options that are required, but were not given. -/
def missing (g : Given) : List String :=
  (r.flags.filter fun f => f.required && !g.has f.name).map Flag.label

/-- Looks at the last value, asks the environment, and sees that nothing is missing. -/
def complete (environment : List (String × String)) (g : Given) : Except Stop Given :=
  g.settle.bind fun g =>
    (addVariables environment r.flags g).bind fun g =>
      match r.missing g with
      | [] => .ok g
      | options => .error (.usage (.missingOptions options))

end Grammar
end CommandLine
end MarketFeed
