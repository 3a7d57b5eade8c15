import MarketFeed.Binance.Endpoint
import MarketFeed.Binance.Kline
import MarketFeed.Http.Server

/-!
# MarketFeed.Binance.Fetch

* `ApiError` — what Binance says about a request that it refuses.
* `klinesOf` — what an answer comes to.
-/

namespace MarketFeed
namespace Binance

structure ApiError where
  code : Int
  text : String
  deriving DecidableEq, Repr

namespace ApiError

def ofTree? (t : Json.Tree) : Option ApiError :=
  match Json.fields? ["code", "msg"] false t with
  | some [code, text] => do
    let code ← Json.required? Json.Tree.int64? code
    let text ← Json.required? Json.Tree.text? text
    some ⟨code, text⟩
  | _ => none

/-- What a body says: the error in it, or else the body itself. -/
def describe (body : String) : String :=
  match (Json.read? body.toList).bind ofTree? with
  | some e => s!"{e.text} (code {e.code})"
  | none => body

end ApiError

/-- The rows of an answer. -/
def klinesOf : Except String Http.Response → Except VenueError (List Kline)
  | .error e => .error (.http e)
  | .ok r =>
    if Http.isSuccess r.status then Kline.readAll r.body
    else .error (.vendor (Http.statusText r.status ++ ": " ++ ApiError.describe r.body))

end Binance
end MarketFeed
