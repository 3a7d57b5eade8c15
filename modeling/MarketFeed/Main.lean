import MarketFeed.Ingestion.Program

/-!
# MarketFeed.Main

The program at the command line. No server can be reached from here: every connection is refused,
and collecting ends as soon as everything has come to rest.
-/

namespace MarketFeed
namespace Ingestion

/-- Servers that nothing reaches. -/
def unreachable : Servers :=
  ⟨.new "none:" [], ⟨"none:", [], .closes, false⟩, 0, [], "none:", .new [] none⟩

/-- The user interrupts the program once nothing happens by itself. -/
def atRest : Interrupt := ⟨0, false, 0, 0⟩

/-- The environment variables that the program looks at. -/
def variableNames : List String :=
  (CommandLine.programFlags ++ CommandLine.collectFlags).filterMap CommandLine.Flag.environment

end Ingestion
end MarketFeed

def main (arguments : List String) : IO UInt32 := do
  let environment ← MarketFeed.Ingestion.variableNames.filterMapM fun name => do
    let value ← IO.getEnv name
    return value.map fun text => (name, text)
  let (outcome, _) := MarketFeed.Ingestion.run MarketFeed.Ingestion.unreachable
    (some MarketFeed.Ingestion.atRest) environment arguments
  outcome.lines.forM fun line => IO.println line
  outcome.error.forM fun message => IO.eprintln message
  return outcome.exit
