/-!
# MarketFeed.CommandLine.Error

* `UsageError` — what can be wrong with a command line, with its message.
-/

namespace MarketFeed
namespace CommandLine

/-- Options are named as they are shown to the user. -/
inductive UsageError where
  | missingValue (option : String)
  | invalidValue (value option reason : String)
  /-- A value for an option that takes none. -/
  | unneededValue (value option : String)
  /-- An option that may stand only once. -/
  | repeated (option : String)
  | unexpected (argument : String)
  | unknownCommand (argument : String)
  | missingCommand (program : String)
  | missingOptions (options : List String)
  deriving DecidableEq, Repr

def UsageError.message : UsageError → String
  | .missingValue option => "a value is required for '" ++ option ++ "' but none was supplied"
  | .invalidValue value option reason =>
    "invalid value '" ++ value ++ "' for '" ++ option ++ "': " ++ reason
  | .unneededValue value option =>
    "unexpected value '" ++ value ++ "' for '" ++ option ++ "' found; no more were expected"
  | .repeated option => "the argument '" ++ option ++ "' cannot be used multiple times"
  | .unexpected argument => "unexpected argument '" ++ argument ++ "' found"
  | .unknownCommand argument => "unrecognized subcommand '" ++ argument ++ "'"
  | .missingCommand program => "'" ++ program ++ "' requires a subcommand but one was not provided"
  | .missingOptions options =>
    "the following required arguments were not provided:" ++
      String.join (options.map ("\n  " ++ ·))

end CommandLine
end MarketFeed
