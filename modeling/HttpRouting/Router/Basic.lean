import HttpRouting.Router.Config
import HttpRouting.Router.SegmentTree

/-!
# Routers

A router is a frozen table of path routes with the engine that answers from it. A scan tries the
path routes in table order: the first hit answers, and without one the answer tells whether some
path matched. The tree gives the same answers and only tries fewer routes.
-/

namespace HttpRouting

variable {η : Type}

private def scanFrom (m : Method) (path : String) : Bool → List (PathRoute η) → Routing η
  | pathMatched, [] => if pathMatched then .methodNotAllowed else .notMatched
  | pathMatched, r :: rest =>
      match r.attempt m path with
      | .hit found => .matched found
      | .pathMatched => scanFrom m path true rest
      | .miss => scanFrom m path pathMatched rest

def scan (routes : List (PathRoute η)) (m : Method) (path : String) : Routing η :=
  scanFrom m path false routes

theorem scan_cons_of_miss {r : PathRoute η} {m : Method} {path : String}
    (h : r.attempt m path = .miss) (rest : List (PathRoute η)) :
    scan (r :: rest) m path = scan rest m path := by
  simp [scan, scanFrom, h]

theorem scan_cons_of_hit {r : PathRoute η} {m : Method} {path : String} {found : RouteMatch η}
    (h : r.attempt m path = .hit found) (rest : List (PathRoute η)) :
    scan (r :: rest) m path = .matched found := by
  simp [scan, scanFrom, h]

private theorem scanFrom_eq (m : Method) (path : String) (pathMatched : Bool)
    (routes : List (PathRoute η)) :
    scanFrom m path pathMatched routes =
      match routes.findSome? (PathRoute.hit? · m path) with
      | some found => .matched found
      | none =>
          if pathMatched || routes.any (fun r => r.pattern.isMatch path) then .methodNotAllowed
          else .notMatched := by
  induction routes generalizing pathMatched with
  | nil => simp [scanFrom]
  | cons r rest ih =>
      rw [scanFrom, List.findSome?_cons]
      cases hr : r.hit? m path with
      | some found => rw [PathRoute.hit?_eq_some_iff.mp hr]
      | none =>
          rw [PathRoute.attempt_of_hit?_eq_none hr]
          by_cases hmatch : r.pattern.isMatch path = true
          · simp [hmatch, ih]
          · simp [hmatch, ih]

/-- A scan answers with the first hit, and without one tells whether some pattern matches. -/
theorem scan_eq (routes : List (PathRoute η)) (m : Method) (path : String) :
    scan routes m path =
      match routes.findSome? (PathRoute.hit? · m path) with
      | some found => .matched found
      | none =>
          if routes.any (fun r => r.pattern.isMatch path) then .methodNotAllowed
          else .notMatched := by
  rw [scan, scanFrom_eq, Bool.false_or]

theorem scan_of_findSome? {routes : List (PathRoute η)} {m : Method} {path : String}
    {found : RouteMatch η} (h : routes.findSome? (PathRoute.hit? · m path) = some found) :
    scan routes m path = .matched found := by
  rw [scan_eq, h]

theorem findSome?_of_scan {routes : List (PathRoute η)} {m : Method} {path : String}
    {found : RouteMatch η} (h : scan routes m path = .matched found) :
    routes.findSome? (PathRoute.hit? · m path) = some found := by
  rw [scan_eq] at h
  split at h
  · next other hother =>
    cases h
    exact hother
  · split at h <;> cases h

theorem scan_eq_methodNotAllowed_iff {routes : List (PathRoute η)} {m : Method} {path : String} :
    scan routes m path = .methodNotAllowed ↔
      routes.any (fun r => r.pattern.isMatch path) = true ∧
        routes.findSome? (PathRoute.hit? · m path) = none := by
  rw [scan_eq]
  cases routes.findSome? (PathRoute.hit? · m path) <;> simp

theorem scan_eq_notMatched_iff {routes : List (PathRoute η)} {m : Method} {path : String} :
    scan routes m path = .notMatched ↔
      routes.any (fun r => r.pattern.isMatch path) = false ∧
        routes.findSome? (PathRoute.hit? · m path) = none := by
  rw [scan_eq]
  cases routes.findSome? (PathRoute.hit? · m path) <;> simp

inductive Engine (η : Type) where
  | simple (routes : List (PathRoute η))
  | segmentTree (tree : SegmentTree η)

/-- A frozen table and the number of definitions that it was made from. -/
structure Router (η : Type) where
  engine : Engine η
  definitions : Nat

namespace Router

def pathRoutes (r : Router η) : List (PathRoute η) :=
  match r.engine with
  | .simple routes => routes
  | .segmentTree tree => tree.routes

def policy (r : Router η) : Policy :=
  match r.engine with
  | .simple _ => .simple
  | .segmentTree _ => .segmentTree

def routing (r : Router η) (m : Method) (path : String) : Routing η :=
  match r.engine with
  | .simple routes => scan routes m path
  | .segmentTree tree => tree.routing m path

def ofRoutes (policy : Policy) (routes : List (PathRoute η)) (definitions : Nat) : Router η :=
  match policy with
  | .segmentTree => ⟨.segmentTree (SegmentTree.ofRoutes routes), definitions⟩
  | .simple | .auto => ⟨.simple routes, definitions⟩

@[simp] theorem pathRoutes_ofRoutes (policy : Policy) (routes : List (PathRoute η))
    (definitions : Nat) : (ofRoutes policy routes definitions).pathRoutes = routes := by
  cases policy <;> simp [ofRoutes, pathRoutes]

def describe? (r : Router η) : Option String :=
  match r.engine with
  | .simple routes =>
      let table :=
        Text.record "SimpleRouter" [("routes", Text.list (routes.map PathRoute.describe))]
      some (Text.record "Router" [("engine", Text.wrapped "Simple" table),
        ("definition_count", toString r.definitions)])
  | .segmentTree _ => none

end Router

end HttpRouting
