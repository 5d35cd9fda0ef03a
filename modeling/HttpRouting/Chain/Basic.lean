import HttpRouting.Message.Request
import HttpRouting.Router.Lazy

/-!
# Middleware chains

A handler answers a request with a response or fails, and may change the request and log events on
the way. A link of a chain is a handler that is given the rest of the chain, to run it as often as
it likes. A chain runs its links in order and ends in a fallback, so a chain is itself a handler.

A router as a link answers the requests that it matches and passes the others on. It leaves the
matched route and the bound variables on the request before its handler runs. A path filter guards
another link: it lets a path through that lies at or below one of its base paths, and without base
paths it lets everything through. What comes below a base starts with a slash and holds no line
feed. The access log reports what the rest of the chain answered.
-/

namespace HttpRouting

/-- A request on its way through a chain, and the numbers of the lazy routers built so far. -/
structure Exchange where
  request : Request
  built : List Nat := []
deriving DecidableEq

def Exchange.mapRequest (x : Exchange) (change : Request → Request) : Exchange :=
  { x with request := change x.request }

abbrev Outcome := Except String Response

/-- Answers a request; what was changed and logged before a failure stays. -/
abbrev Handler := Exchange → Logged (Outcome × Exchange)

/-- The rest of a chain: how many links it has, and the handler that they make. -/
structure Next where
  remaining : Nat
  run : Handler

def Next.describe (next : Next) : String :=
  Text.openRecord "Next" [("remaining", toString next.remaining)]

abbrev Middleware := Next → Handler

def Next.ofLinks (fallback : Handler) : List Middleware → Next
  | [] => ⟨0, fallback⟩
  | link :: rest => ⟨rest.length + 1, link (Next.ofLinks fallback rest)⟩

def Handler.notFound : Handler := fun x => pure (.ok .notFound, x)

def Handler.notFoundDescription : String := "NotFound"

def Handler.description : String := Text.openRecord "FnHandler" []

structure Chain where
  links : List Middleware := []
  fallback : Handler := Handler.notFound

namespace Chain

def addLast (c : Chain) (link : Middleware) : Chain := { c with links := c.links ++ [link] }

def addFirst (c : Chain) (link : Middleware) : Chain := { c with links := link :: c.links }

def setFallback (c : Chain) (fallback : Handler) : Chain := { c with fallback := fallback }

def dispatch (c : Chain) : Handler := (Next.ofLinks c.fallback c.links).run

/-- Answers every request: a failure is logged and becomes a response with status 500. -/
def handle (c : Chain) (x : Exchange) : Logged (Response × Exchange) := do
  match ← c.dispatch x with
  | (.ok response, x) => pure (response, x)
  | (.error cause, x) =>
      Logged.event (.failed x.request.method.name x.request.path cause)
      pure (.internalServerError, x)

private def describeAs (name : String) (c : Chain) : String :=
  Text.openRecord name [("middlewares", toString c.links.length)]

def describe (c : Chain) : String := describeAs "MiddlewareChain" c

def describeBuilder (c : Chain) : String := describeAs "MiddlewareChainBuilder" c

end Chain

structure PathFilter where
  bases : List String
deriving DecidableEq, Repr

namespace PathFilter

def segmentsOf (base : String) : List Segment :=
  (Path.segments base.toList).map fun s => s.map Piece.char

/-- The expression for the paths at and below a base path. -/
def regexOf (base : String) : Regex := ⟨Pattern.partsOf (segmentsOf base) ++ [.below]⟩

def accepts (f : PathFilter) (path : String) : Bool :=
  f.bases.isEmpty || f.bases.any fun base => (regexOf base).isMatch path.toList

def describe (f : PathFilter) : String :=
  let expressions := Text.list (f.bases.map fun base => Text.quote (regexOf base).text)
  Text.openRecord "PathFilter"
    [("prefixes", Text.optional (if f.bases.isEmpty then none else some expressions))]

end PathFilter

namespace Link

def router (r : Router Handler) : Middleware := fun next x => do
  match ← r.routingLogged x.request.method x.request.path with
  | .matched found =>
      found.methodRoute.handler <| x.mapRequest fun request =>
        (request.setRoute found.methodRoute.route).setBindings found.bindings
  | .methodNotAllowed => pure (.ok .methodNotAllowed, x)
  | .notMatched => next.run x

/-- Answers from a lazy router with a number of its own, which is built by the first request. -/
def lazyRouter (number : Nat) (l : LazyRouter Handler) : Middleware := fun next x => do
  let r := l.init.1
  if l.isInitialized || number ∈ x.built then router r next x
  else
    Logged.event r.event
    router r next { x with built := number :: x.built }

def filtered (f : PathFilter) (link : Middleware) : Middleware := fun next x =>
  if f.accepts x.request.path then link next x else next.run x

/-- The event of an outcome, with the route that is on the request by then. The time that the outcome
took is left out. -/
def accessEvent (outcome : Outcome) (request : Request) : Event :=
  match outcome with
  | .ok response =>
      .access request.method.name request.path response.status.code request.matchedRoute
  | .error cause =>
      .accessFailed request.method.name request.path request.matchedRoute cause

def accessLog : Middleware := fun next x => do
  let (outcome, x) ← next.run x
  Logged.event (accessEvent outcome x.request)
  pure (outcome, x)

def accessLogDescription : String := "AccessLog"

end Link

end HttpRouting
