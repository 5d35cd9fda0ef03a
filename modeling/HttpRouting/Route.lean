import HttpRouting.Method
import HttpRouting.Pattern.Basic

/-!
# Routes

A definition ties a pattern and a set of methods to a handler. Definitions whose patterns have the
same segments share a path route, which tries those with explicit methods before those that accept
every method. A path route answers a request with a hit, with the news that only its path matched,
or with a miss.
-/

namespace HttpRouting

structure MatchedRoute where
  methods : String
  template : String
deriving DecidableEq, Repr

def MatchedRoute.display (r : MatchedRoute) : String := r.methods ++ " " ++ r.template

def MatchedRoute.describe (r : MatchedRoute) : String :=
  Text.record "MatchedRoute" [("methods_label", Text.quote r.methods),
    ("path_template", Text.quote r.template)]

variable {η : Type}

structure Definition (η : Type) where
  pattern : Pattern
  methods : MethodSet
  handler : η

def Definition.describe (d : Definition η) : String :=
  Text.openRecord "RouteDefinition" [("template", Text.quote d.pattern.template),
    ("methods", d.methods.describe)]

structure MethodRoute (η : Type) where
  methods : MethodSet
  handler : η
  route : MatchedRoute

def MethodRoute.accepts (r : MethodRoute η) (m : Method) : Bool := r.methods.contains m

def MethodRoute.describe (r : MethodRoute η) : String :=
  Text.openRecord "MethodRoute" [("route", Text.quote r.route.display)]

/-- The definitions with one list of segments; `order` is its place in the table. -/
structure PathRoute (η : Type) where
  pattern : Pattern
  methodRoutes : List (MethodRoute η)
  order : Nat

structure RouteMatch (η : Type) where
  pathRoute : PathRoute η
  methodRoute : MethodRoute η
  bindings : Variables

inductive Attempt (η : Type) where
  | miss
  | pathMatched
  | hit (found : RouteMatch η)

namespace PathRoute

def explicitFirst (routes : List (MethodRoute η)) : List (MethodRoute η) :=
  routes.filter (fun r => !r.methods.isAny) ++ routes.filter fun r => r.methods.isAny

/-- The path route of definitions with the same segments, all reported with the first template. -/
def ofDefinitions (order : Nat) (first : Definition η) (rest : List (Definition η)) :
    PathRoute η where
  pattern := first.pattern
  methodRoutes := explicitFirst ((first :: rest).map fun d =>
    ⟨d.methods, d.handler, ⟨d.methods.label, first.pattern.template⟩⟩)
  order := order

def find? (r : PathRoute η) (m : Method) : Option (MethodRoute η) :=
  r.methodRoutes.find? fun route => route.accepts m

def attempt (r : PathRoute η) (m : Method) (path : String) : Attempt η :=
  match r.find? m with
  | some methodRoute =>
      match r.pattern.captures path with
      | some bindings => .hit ⟨r, methodRoute, bindings⟩
      | none => .miss
  | none => if r.pattern.isMatch path then .pathMatched else .miss

def hit? (r : PathRoute η) (m : Method) (path : String) : Option (RouteMatch η) :=
  match r.attempt m path with
  | .hit found => some found
  | _ => none

def describe (r : PathRoute η) : String :=
  Text.record "PathRoute" [("template", Text.quote r.pattern.template),
    ("method_routes", Text.list (r.methodRoutes.map MethodRoute.describe))]

theorem attempt_eq_miss_iff (r : PathRoute η) (m : Method) (path : String) :
    r.attempt m path = .miss ↔ r.pattern.isMatch path = false := by
  rw [attempt, Pattern.isMatch_eq_isSome_captures]
  split
  · split <;> simp_all
  · split <;> simp_all

theorem hit?_eq_some_iff {r : PathRoute η} {m : Method} {path : String} {found : RouteMatch η} :
    r.hit? m path = some found ↔ r.attempt m path = .hit found := by
  unfold hit?
  split <;> simp_all

theorem hit?_eq (r : PathRoute η) (m : Method) (path : String) :
    r.hit? m path = (r.find? m).bind fun methodRoute =>
      (r.pattern.captures path).map fun bindings => ⟨r, methodRoute, bindings⟩ := by
  rw [hit?, attempt]
  cases r.find? m with
  | none => cases r.pattern.isMatch path <;> rfl
  | some methodRoute => cases r.pattern.captures path <;> rfl

theorem isMatch_of_hit? {r : PathRoute η} {m : Method} {path : String} {found : RouteMatch η}
    (h : r.hit? m path = some found) : r.pattern.isMatch path = true := by
  rw [← Bool.not_eq_false]
  intro hmiss
  rw [hit?_eq_some_iff, (attempt_eq_miss_iff r m path).mpr hmiss] at h
  cases h

theorem attempt_of_hit?_eq_none {r : PathRoute η} {m : Method} {path : String}
    (h : r.hit? m path = none) :
    r.attempt m path = if r.pattern.isMatch path then .pathMatched else .miss := by
  cases ha : r.attempt m path with
  | miss => rw [(attempt_eq_miss_iff r m path).mp ha, if_neg Bool.false_ne_true]
  | pathMatched =>
      rw [if_pos]
      rw [← Bool.not_eq_false]
      intro hmiss
      rw [(attempt_eq_miss_iff r m path).mpr hmiss] at ha
      cases ha
  | hit found =>
      rw [hit?_eq_some_iff.mpr ha] at h
      cases h

end PathRoute

def RouteMatch.describe (found : RouteMatch η) : String :=
  Text.record "RouteMatch" [("path_route", found.pathRoute.describe),
    ("method_route", found.methodRoute.describe), ("path_variables", found.bindings.describe)]

inductive Routing (η : Type) where
  | matched (found : RouteMatch η)
  | methodNotAllowed
  | notMatched

def Routing.isMatched : Routing η → Bool
  | .matched _ => true
  | _ => false

def Routing.describe : Routing η → String
  | .matched found => Text.wrapped "Matched" found.describe
  | .methodNotAllowed => "MethodNotAllowed"
  | .notMatched => "NotMatched"

end HttpRouting
