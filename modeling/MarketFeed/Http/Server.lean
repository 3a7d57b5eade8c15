import MarketFeed.Http.Status
import MarketFeed.Http.Target
import MarketFeed.Text.Utf16

/-!
# MarketFeed.Http.Server

* `Http.Response` — a status and the text of a body.
* `Http.Reply` — what a server does about a request.
* `Http.Server` — a server that follows a script and keeps the targets of its requests.
-/

namespace MarketFeed
namespace Http

structure Response where
  status : Nat
  body : String
  deriving DecidableEq, Repr

inductive Reply where
  /-- Closes the connection without an answer. -/
  | drop
  /-- Answers, and may announce another length than that of the body. -/
  | answer (status : Nat) (body : List UInt8) (announced : Option Nat)
  deriving DecidableEq, Repr

/-- What the client makes of a reply. A body shorter than announced is a failure, a longer one is
cut. -/
def Reply.response : Reply → Except String Response
  | .drop => .error "connection closed before message completed"
  | .answer status body announced =>
    let length := announced.getD body.length
    if !isStatus status then .error "invalid HTTP status-code parsed"
    else if isInterim status then .error "connection closed before message completed"
    else if isBodiless status then .ok ⟨status, ""⟩
    else if body.length < length then .error "end of file before message length reached"
    else .ok ⟨status, Text.textOfMarkedBytes (body.take length)⟩

structure Server where
  /-- The address that the server is reached at, without a path. -/
  address : String
  /-- What it does about the next requests; later ones are dropped. -/
  replies : List Reply
  /-- The targets of the requests so far. -/
  requests : List String
  deriving DecidableEq, Repr

namespace Server

def new (address : String) (replies : List Reply) : Server := ⟨address, replies, []⟩

/-- A request for an address with parameters. Nothing is heard of one that goes elsewhere. -/
def get (s : Server) (url : String) (parameters : List (String × String)) :
    Except String Response × Server :=
  match target? s.address url parameters with
  | none => (.error "error sending request", s)
  | some target =>
    let s := { s with requests := s.requests ++ [target] }
    match s.replies with
    | [] => (Reply.drop.response, s)
    | r :: rest => (r.response, { s with replies := rest })

end Server
end Http
end MarketFeed
