import HttpRouting.Chain.Basic

/-!
# Ready-made handlers and links

Handlers that answer with what they see of a request, and links that mark requests and responses,
run the rest of a chain several times, or do not run it at all. They show what the parts of a chain
do to one another.
-/

namespace HttpRouting

namespace Handler

def respond (value : Responder) : Handler := fun x => pure (.ok value.respond, x)

def fail (text : String) : Handler := fun x => pure (.error text, x)

def echoText (label : String) (vs : Variables) : String :=
  label ++ String.join (vs.pairs.map fun (name, value) => " " ++ name ++ "=" ++ value)

def echo (label : String) : Handler := fun x =>
  respond (.text (echoText label x.request.bindings)) x

def trail : Handler := fun x => respond (.text (",".intercalate x.request.trail)) x

def inspectText (r : Request) : String :=
  " ".intercalate [r.method.name, r.path,
    "query=" ++ r.target.query.getD "-",
    "headers=" ++ toString r.headers.length,
    "body=" ++ toString r.body.length,
    "vars=" ++ "&".intercalate (r.bindings.pairs.map fun (name, value) => name ++ "=" ++ value),
    "route=" ++ r.matchedRoute.elim "-" MatchedRoute.display]

def inspect : Handler := fun x => respond (.text (inspectText x.request)) x

def numberText : Number → String
  | .integer n => toString n
  | .double d => if d.isNaN then "NaN" else String.ofList (Text.hexPadded 16 d.bits.toNat)

def variableText (name : String) : Handler := fun x =>
  match x.request.bindings.get? name with
  | some value => respond (.success (.present (.text value))) x
  | none => respond (.success .absent) x

/-- Answers with a path variable read as a number, with nothing if there is none, and with the
error if its value is no such number. -/
def variableNumber (kind : NumberKind) (name : String) : Handler := fun x =>
  let (answer, request) := x.request.readVariable kind name
  let value : Responder :=
    match answer with
    | .ok (some n) => .success (.present (.text (numberText n)))
    | .ok none => .success .absent
    | .error e => .failure (.variableError e)
  respond value { x with request := request }

end Handler

namespace Link

def tagHeader : String := "x-tags"

def addTag (label : String) (r : Response) : Response :=
  let tags := (r.headers.get? tagHeader).elim label fun tags => tags ++ "," ++ label
  { r with headers := r.headers.set tagHeader tags }

def tag (label : String) : Middleware := fun next x => do
  let (outcome, x) ← next.run (x.mapRequest fun r => r.pass label)
  pure (outcome.map (addTag label), x)

def describeNext : Middleware := fun next x =>
  next.run (x.mapRequest fun r => r.pass next.describe)

/-- Runs the rest of the chain once and then `again` more times, until it fails. -/
def repeated : Nat → Middleware
  | 0, next, x => next.run x
  | again + 1, next, x => do
      match ← next.run x with
      | (.ok _, x) => repeated again next x
      | (.error cause, x) => pure (.error cause, x)

def stop (handler : Handler) : Middleware := fun _ => handler

end Link

end HttpRouting
