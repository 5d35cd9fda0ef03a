import HttpRouting.Route

/-!
# Searching a table as a tree

Path routes are stored by their number of segments and then by their leading literal segments. A
route without variables ends under its last segment; a route with variables ends at the node of its
first segment that holds one. A search follows the segments of the path down the tree and, on the
way back, tries the routes with variables in table order while they can still precede the hit.
-/

namespace HttpRouting

mutual

/-- A node of the tree: its distance from the root, its children, the routes that end with one more
literal segment, and the routes whose next segment holds a variable. -/
inductive Node where
  | mk (depth : Nat) (children : Children) (ends : List (List Char × Nat)) (patternEnds : List Nat)

inductive Children where
  | nil
  | cons (segment : List Char) (child : Node) (rest : Children)

end

def Node.empty (depth : Nat) : Node := .mk depth .nil [] []

def Children.alter (segment : List Char) (depth : Nat) (change : Node → Node) : Children → Children
  | .nil => .cons segment (change (Node.empty depth)) .nil
  | .cons s child rest =>
      if s = segment then .cons s (change child) rest
      else .cons s child (rest.alter segment depth change)

def Children.find? (segment : List Char) : Children → Option Node
  | .nil => none
  | .cons s child rest => if s = segment then some child else rest.find? segment

theorem Children.find?_alter_self (segment : List Char) (depth : Nat) (change : Node → Node) :
    (children : Children) → (children.alter segment depth change).find? segment =
      some (change ((children.find? segment).getD (Node.empty depth)))
  | .nil => by simp [Children.alter, Children.find?]
  | .cons s child rest => by
      have ih := find?_alter_self segment depth change rest
      rw [Children.alter]
      split <;> simp_all [Children.find?]

theorem Children.find?_alter_of_ne {segment other : List Char} (h : other ≠ segment) (depth : Nat)
    (change : Node → Node) :
    (children : Children) →
      (children.alter segment depth change).find? other = children.find? other
  | .nil => by simp [Children.alter, Children.find?, Ne.symm h]
  | .cons s child rest => by
      have ih := find?_alter_of_ne h depth change rest
      rw [Children.alter]
      split
      · next hs => simp [Children.find?, hs, Ne.symm h]
      · simp [Children.find?, ih]

def Node.insert (index : Nat) : List Segment → Node → Node
  | [], node => node
  | segment :: rest, .mk depth children ends patternEnds =>
      if segment.isPattern then .mk depth children ends (patternEnds ++ [index])
      else if rest.isEmpty then .mk depth children ((segment.text, index) :: ends) patternEnds
      else
        let below := children.alter segment.text (depth + 1) (Node.insert index rest)
        .mk depth below ends patternEnds

def alterRoot (count : Nat) (change : Node → Node) : List (Nat × Node) → List (Nat × Node)
  | [] => [(count, change (Node.empty 0))]
  | (n, node) :: rest =>
      if n = count then (n, change node) :: rest else (n, node) :: alterRoot count change rest

variable {η : Type}

/-- A table with its tree: the place of the template without segments, and a root for each other
number of segments. -/
structure SegmentTree (η : Type) where
  routes : List (PathRoute η)
  rootRoute : Option Nat := none
  roots : List (Nat × Node) := []

namespace SegmentTree

def insert (tree : SegmentTree η) (index : Nat) : List Segment → SegmentTree η
  | [] => { tree with rootRoute := some index }
  | segments =>
      { tree with roots := alterRoot segments.length (Node.insert index segments) tree.roots }

def ofRoutes (routes : List (PathRoute η)) : SegmentTree η :=
  routes.zipIdx.foldl (fun tree (route, index) => tree.insert index route.pattern.segments)
    ⟨routes, none, []⟩

@[simp] theorem routes_insert (tree : SegmentTree η) (index : Nat) (segments : List Segment) :
    (tree.insert index segments).routes = tree.routes := by
  cases segments <;> rfl

@[simp] theorem routes_ofRoutes (routes : List (PathRoute η)) :
    (ofRoutes routes).routes = routes := by
  suffices kept : ∀ (places : List (PathRoute η × Nat)) (tree : SegmentTree η),
      (places.foldl (fun tree (route, index) =>
        tree.insert index route.pattern.segments) tree).routes = tree.routes from kept _ _
  intro places
  induction places with
  | nil => intro tree; rfl
  | cons place places ih => intro tree; rw [List.foldl_cons, ih, routes_insert]

end SegmentTree

/-- What a search has found so far: the hit with the least order, whether some path matched, and the
orders of the path routes that were tried, the latest first. -/
structure Search (η : Type) where
  hit : Option (RouteMatch η) := none
  pathMatched : Bool := false
  attempted : List Nat := []

namespace Search

def hitBefore (s : Search η) (order : Nat) : Bool :=
  s.hit.any fun found => found.pathRoute.order < order

def attempt (m : Method) (path : String) (s : Search η) (r : PathRoute η) : Search η :=
  let s := { s with attempted := r.order :: s.attempted }
  match r.attempt m path with
  | .hit found =>
      if s.hit.all fun present => r.order < present.pathRoute.order then
        { s with hit := some found }
      else s
  | .pathMatched => { s with pathMatched := true }
  | .miss => s

def attemptAt (routes : List (PathRoute η)) (m : Method) (path : String) (s : Search η)
    (index : Nat) : Search η :=
  match routes[index]? with
  | none => s
  | some r => s.attempt m path r

/-- Tries the path routes at increasing places until the hit stands before the next one. -/
def attemptWhileBefore (routes : List (PathRoute η)) (m : Method) (path : String) :
    List Nat → Search η → Search η
  | [], s => s
  | index :: rest, s =>
      match routes[index]? with
      | none => attemptWhileBefore routes m path rest s
      | some r =>
          if s.hitBefore r.order then s
          else attemptWhileBefore routes m path rest (s.attempt m path r)

def routing (s : Search η) : Routing η :=
  match s.hit with
  | some found => .matched found
  | none => if s.pathMatched then .methodNotAllowed else .notMatched

end Search

mutual

/-- Searches below a node for the segments of a path, and then among the node's own routes. -/
def Node.search (routes : List (PathRoute η)) (segments : List (List Char)) (m : Method)
    (path : String) : Node → Search η → Search η
  | .mk depth children ends patternEnds, s =>
      Search.attemptWhileBefore routes m path patternEnds <|
        match segments[depth]? with
        | none => s
        | some segment =>
            if depth + 1 = segments.length then
              match ends.lookup segment with
              | some index => s.attemptAt routes m path index
              | none => s
            else children.search routes segments m path segment s

def Children.search (routes : List (PathRoute η)) (segments : List (List Char)) (m : Method)
    (path : String) (segment : List Char) : Children → Search η → Search η
  | .nil, s => s
  | .cons key child rest, s =>
      if key = segment then child.search routes segments m path s
      else rest.search routes segments m path segment s

end

theorem Children.search_eq (routes : List (PathRoute η)) (segments : List (List Char)) (m : Method)
    (path : String) (segment : List Char) (s : Search η) :
    (children : Children) → children.search routes segments m path segment s =
      ((children.find? segment).elim s fun child => child.search routes segments m path s)
  | .nil => by simp [Children.search, Children.find?]
  | .cons key child rest => by
      rw [Children.search, Children.find?]
      split
      · rfl
      · exact search_eq routes segments m path segment s rest

namespace SegmentTree

def search (tree : SegmentTree η) (m : Method) (path : String) : Search η :=
  match Path.segments path.toList with
  | [] =>
      match tree.rootRoute with
      | some index => Search.attemptAt tree.routes m path {} index
      | none => {}
  | segments =>
      match tree.roots.lookup segments.length with
      | some root => root.search tree.routes segments m path {}
      | none => {}

def routing (tree : SegmentTree η) (m : Method) (path : String) : Routing η :=
  (tree.search m path).routing

end SegmentTree

end HttpRouting
