import MarketFeed.Text.FormEncoding

/-!
# MarketFeed.Http.Target

What a request for an address asks a server for: a path and a query.

* `Http.target?` — of a plain request, which writes the address in its normal form and adds
  parameters to its query.
* `Http.streamTarget?` — of a WebSocket request, which takes the address as it is, but refuses
  characters that may not stand in it.

There is none if the address goes elsewhere. A fragment is never sent.
-/

namespace MarketFeed
namespace Http

/-- What follows the address of a server, as far as the fragment. It begins a path or a query. -/
def behind? (begins : Char → Bool) (server url : List Char) : Option (List Char) :=
  if server.isPrefixOf url then
    match url.drop server.length with
    | [] => some []
    | c :: cs => if begins c || c = '#' then some ((c :: cs).takeWhile (· ≠ '#')) else none
  else none

/-- The path in front of a question mark, and the query behind it. -/
def splitQuery (cs : List Char) : List Char × Option (List Char) :=
  match cs.dropWhile (· ≠ '?') with
  | [] => (cs, none)
  | _ :: query => (cs.takeWhile (· ≠ '?'), some query)

/-! ## Plain requests -/

def isControl (c : Char) : Bool := c.toNat < 0x20 || c.toNat = 0x7F

/-- The characters that are written by their bytes in a query. -/
def isQueryEscaped (c : Char) : Bool :=
  isControl c || 0x7F < c.toNat || [' ', '"', '#', '<', '>', '\''].contains c

/-- The characters that are written by their bytes in a path. -/
def isPathEscaped (c : Char) : Bool :=
  isControl c || 0x7F < c.toNat ||
    [' ', '"', '#', '<', '>', '?', '\u0060', '\x7b', '\x7d'].contains c

def escape (escaped : Char → Bool) (cs : List Char) : List Char :=
  cs.flatMap fun c => if escaped c then (Text.encodeChar c).flatMap Text.percentByte else [c]

/-- The address without blanks around it, and without any tabs and line ends. -/
def stripped (url : String) : List Char :=
  let isEdge (c : Char) : Bool := c.toNat ≤ 0x20
  let cs := ((url.toList.dropWhile isEdge).reverse.dropWhile isEdge).reverse
  cs.filter fun c => ['\t', '\n', '\r'].all (· ≠ c)

/-- Both slashes divide a path. -/
def isSlash (c : Char) : Bool := c = '/' || c = '\\'

/-- The parts of a path between slashes. -/
def segments : List Char → List (List Char)
  | [] => [[]]
  | c :: rest =>
    if isSlash c then [] :: segments rest
    else
      match segments rest with
      | [] => [[c]]
      | s :: more => (c :: s) :: more

/-- A part of a path with its encoded dots read. -/
def dotted : List Char → List Char
  | '%' :: '2' :: 'e' :: rest => '.' :: dotted rest
  | '%' :: '2' :: 'E' :: rest => '.' :: dotted rest
  | c :: rest => c :: dotted rest
  | [] => []

/-- Follows the steps to the same place and to the one above. The parts so far come last first. -/
def resolve (done : List (List Char)) : List (List Char) → List (List Char)
  | [] => done.reverse
  | s :: rest =>
    let place (l : List (List Char)) : List (List Char) := if rest.isEmpty then [] :: l else l
    if dotted s = ['.'] then resolve (place done) rest
    else if dotted s = ['.', '.'] then resolve (place done.tail) rest
    else resolve (s :: done) rest

/-- The normal form of a path, which begins with a slash if it is not empty. -/
def normalPath (cs : List Char) : List Char :=
  (resolve [] (segments cs.tail)).flatMap fun s => '/' :: escape isPathEscaped s

/-- The parameters behind a query that is there already. -/
def extendQuery (query : List Char) (parameters : List (String × String)) : List Char :=
  let added := (Text.query parameters).toList
  if query.isEmpty then added
  else if added.isEmpty then query
  else query ++ '&' :: added

def target? (server url : String) (parameters : List (String × String)) : Option String :=
  (behind? (fun c => isSlash c || c = '?') server.toList (stripped url)).map fun cs =>
    let (path, query) := splitQuery cs
    let query := extendQuery (escape isQueryEscaped (query.getD [])) parameters
    String.ofList (normalPath path ++ if query.isEmpty then [] else '?' :: query)

/-! ## WebSocket requests -/

/-- The characters that may stand in a path. Beyond ASCII all may. -/
def mayStandInPath (c : Char) : Bool := 0x21 ≤ c.toNat && ['<', '>', '\u0060'].all (· ≠ c)

/-- The characters that may stand in a query. Beyond ASCII all may. -/
def mayStandInQuery (c : Char) : Bool := 0x21 ≤ c.toNat && ['"', '<', '>'].all (· ≠ c)

def streamTarget? (server url : String) : Option String :=
  (behind? (· = '/') server.toList url.toList).bind fun cs =>
    let (path, query) := splitQuery cs
    if path.all mayStandInPath && (query.getD []).all mayStandInQuery then
      some (if cs.isEmpty then "/" else String.ofList cs)
    else none

end Http
end MarketFeed
