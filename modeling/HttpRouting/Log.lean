import HttpRouting.Router.Builder

/-!
# Log events

The events that registering, building, routing and answering leave behind, each with its level, its
message and, for the access log, its fields. An operation that leaves events returns them beside its
value: reading a template leaves one if it succeeds, building a router leaves one, and so does every
answer of a router.

The access log also measures the time that the rest of the chain took and reports it in a field of
its own, `elapsed_ms`. It is a reading of the clock that nothing depends on, and it is left out: the
fields of an event are those that the request and its answer decide.
-/

namespace HttpRouting

inductive Level where
  | trace
  | debug
  | info
  | warn
  | error
deriving DecidableEq, Repr

def Level.name : Level → String
  | .trace => "TRACE"
  | .debug => "DEBUG"
  | .info => "INFO"
  | .warn => "WARN"
  | .error => "ERROR"

inductive Event where
  | compiled (template expression : String)
  | built (engine : Policy) (pathRoutes definitions : Nat)
  | matched (method path : String) (route : MatchedRoute)
  | methodRefused (method path : String)
  | unmatched (method path : String)
  | rejected (methods template : String)
  | access (method path : String) (status : Nat) (route : Option MatchedRoute)
  | accessFailed (method path : String) (route : Option MatchedRoute) (cause : String)
  | failed (method path cause : String)
deriving DecidableEq, Repr

inductive Event.Value where
  | text (s : String)
  | number (n : Nat)
deriving DecidableEq, Repr

namespace Event

def level : Event → Level
  | .compiled .. => .debug
  | .built .. => .info
  | .matched .. | .methodRefused .. | .unmatched .. => .trace
  | .rejected .. => .warn
  | .access .. => .info
  | .accessFailed .. => .warn
  | .failed .. => .error

def message : Event → String
  | .compiled template expression =>
      "converted path pattern: " ++ template ++ " >>> " ++ expression
  | .built engine pathRoutes definitions =>
      s!"router built with {engine.name} engine, {pathRoutes} path routes from " ++
        s!"{definitions} definitions"
  | .matched method path route => s!"{method} {path} matched route {route.display}"
  | .methodRefused method path => s!"{method} {path} matched a path but not the method"
  | .unmatched method path => s!"{method} {path} matched no route"
  | .rejected methods template =>
      s!"route {methods} {template} rejected: router already initialized"
  | .access .. => "access"
  | .accessFailed .. => "access failed"
  | .failed method path cause => s!"handle {method} {path} error: {cause}"

def routeField (route : Option MatchedRoute) : Value :=
  .text (route.elim "-" MatchedRoute.display)

/-- The fields of an event, without the time that the access log measures. -/
def fields : Event → List (String × Value)
  | .access method path status route =>
      [("method", .text method), ("path", .text path), ("status", .number status),
        ("route", routeField route)]
  | .accessFailed method path route cause =>
      [("method", .text method), ("path", .text path), ("route", routeField route),
        ("cause", .text cause)]
  | _ => []

end Event

/-- A value with the events that were logged on the way to it. -/
structure Logged (α : Type) where
  events : List Event
  value : α

namespace Logged

variable {α β : Type}

instance : Monad Logged where
  pure a := ⟨[], a⟩
  bind x next := ⟨x.events ++ (next x.value).events, (next x.value).value⟩

def event (e : Event) : Logged Unit := ⟨[e], ()⟩

instance : LawfulMonad Logged :=
  LawfulMonad.mk' Logged
    (fun x => by
      cases x
      simp [Functor.map])
    (fun a next => by
      simp [bind, pure])
    (fun x next more => by
      simp [bind, List.append_assoc])

end Logged

variable {η : Type}

def Pattern.event (p : Pattern) : Event := .compiled p.template p.regex.text

def Pattern.compileEvents (template : String) : List Event :=
  match Pattern.compile template with
  | .ok pattern => [pattern.event]
  | .error _ => []

def Pattern.compileLogged (template : String) : Logged (Except RegistrationError Pattern) :=
  ⟨compileEvents template, compile template⟩

def Builder.registerLogged (b : Builder η) (template : String) (methods : MethodSet) (handler : η) :
    Logged (Except RegistrationError (Builder η)) :=
  ⟨Pattern.compileEvents template, b.register template methods handler⟩

def Router.event (r : Router η) : Event := .built r.policy r.pathRoutes.length r.definitions

def Builder.buildLogged (b : Builder η) : Logged (Router η) := ⟨[b.build.event], b.build⟩

def Routing.event (m : Method) (path : String) : Routing η → Event
  | .matched found => .matched m.name path found.methodRoute.route
  | .methodNotAllowed => .methodRefused m.name path
  | .notMatched => .unmatched m.name path

def Router.routingLogged (r : Router η) (m : Method) (path : String) : Logged (Routing η) :=
  ⟨[(r.routing m path).event m path], r.routing m path⟩

end HttpRouting
