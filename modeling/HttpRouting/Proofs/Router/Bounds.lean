import HttpRouting.Proofs.Router.Storage

/-!
# Searches within bounds

A strict search has no result once it asks for a segment that the path does not have, or for a path
route that the table does not have. Where every node stands above a segment of the path and stores
places of the table, the strict search gives the result of the search.
-/

namespace HttpRouting

variable {η : Type}

namespace Search

variable (routes : List (PathRoute η)) (m : Method) (path : String)

def attemptAt? (s : Search η) (index : Nat) : Option (Search η) :=
  routes[index]?.map fun r => s.attempt m path r

def attemptWhileBefore? : List Nat → Search η → Option (Search η)
  | [], s => some s
  | index :: rest, s =>
      routes[index]?.bind fun r =>
        if s.hitBefore r.order then some s else attemptWhileBefore? rest (s.attempt m path r)

variable {routes m path}

theorem attemptAt?_eq {index : Nat} (h : index < routes.length) (s : Search η) :
    attemptAt? routes m path s index = some (s.attemptAt routes m path index) := by
  rw [attemptAt?, attemptAt, List.getElem?_eq_getElem h]
  rfl

theorem attemptWhileBefore?_eq {indices : List Nat} (h : ∀ index ∈ indices, index < routes.length)
    (s : Search η) :
    attemptWhileBefore? routes m path indices s =
      some (attemptWhileBefore routes m path indices s) := by
  induction indices generalizing s with
  | nil => rfl
  | cons index rest ih =>
      rw [List.forall_mem_cons] at h
      rw [attemptWhileBefore?, attemptWhileBefore, List.getElem?_eq_getElem h.1, Option.bind_some]
      dsimp only
      split
      · rfl
      · exact ih h.2 _

end Search

mutual

/-- The search below a node, without a result if a segment or a path route is missing. -/
def Node.search? (routes : List (PathRoute η)) (segments : List (List Char)) (m : Method)
    (path : String) : Node → Search η → Option (Search η)
  | .mk depth children ends patternEnds, s =>
      segments[depth]?.bind fun segment =>
        (if depth + 1 = segments.length then
          match ends.lookup segment with
          | some index => Search.attemptAt? routes m path s index
          | none => some s
        else children.search? routes segments m path segment s).bind fun s =>
          Search.attemptWhileBefore? routes m path patternEnds s

def Children.search? (routes : List (PathRoute η)) (segments : List (List Char)) (m : Method)
    (path : String) (segment : List Char) : Children → Search η → Option (Search η)
  | .nil, s => some s
  | .cons key child rest, s =>
      if key = segment then child.search? routes segments m path s
      else rest.search? routes segments m path segment s

end

def SegmentTree.search? (tree : SegmentTree η) (m : Method) (path : String) :
    Option (Search η) :=
  match Path.segments path.toList with
  | [] =>
      match tree.rootRoute with
      | some index => Search.attemptAt? tree.routes m path {} index
      | none => some {}
  | segments =>
      match tree.roots.lookup segments.length with
      | some root => root.search? tree.routes segments m path {}
      | none => some {}

/-- A node that stands above one of a number of segments and stores places of a table. -/
structure Node.InRange (count size : Nat) (node : Node) : Prop where
  depth : node.depth < count
  ends : ∀ entry ∈ node.ends, entry.2 < size
  patternEnds : ∀ index ∈ node.patternEnds, index < size

variable {routes : List (PathRoute η)} {m : Method} {path : String}

mutual

theorem Node.search?_eq {segments : List (List Char)} :
    (node : Node) → (∀ words found, node.Reaches words found →
      found.InRange segments.length routes.length) → (s : Search η) →
      node.search? routes segments m path s = some (node.search routes segments m path s)
  | .mk depth children ends patternEnds, inRange, s => by
      have own := inRange [] _ (.here _)
      have hdepth : depth < segments.length := own.depth
      have hends : ∀ entry ∈ ends, entry.2 < routes.length := own.ends
      have below (s : Search η) :
          children.search? routes segments m path segments[depth] s =
            some (children.search routes segments m path segments[depth] s) :=
        Children.search?_eq children
          (fun word child has words found reaches =>
            inRange (word :: words) found (.child has reaches)) s
      rw [Node.search?, Node.search, List.getElem?_eq_getElem hdepth, Option.bind_some]
      dsimp only
      split
      · cases hlookup : ends.lookup segments[depth] with
        | none => exact Search.attemptWhileBefore?_eq own.patternEnds s
        | some index =>
            have hindex : index < routes.length := hends _ (mem_of_lookup_eq_some hlookup)
            dsimp only
            rw [Search.attemptAt?_eq hindex, Option.bind_some]
            exact Search.attemptWhileBefore?_eq own.patternEnds _
      · rw [below, Option.bind_some]
        exact Search.attemptWhileBefore?_eq own.patternEnds _

theorem Children.search?_eq {segments : List (List Char)} {segment : List Char} :
    (children : Children) → (∀ word child, children.Has word child → ∀ words found,
      child.Reaches words found → found.InRange segments.length routes.length) → (s : Search η) →
      children.search? routes segments m path segment s =
        some (children.search routes segments m path segment s)
  | .nil, _, _ => rfl
  | .cons key child rest, inRange, s => by
      rw [Children.search?, Children.search]
      split
      · exact Node.search?_eq child (inRange key child (.inl ⟨rfl, rfl⟩)) s
      · exact Children.search?_eq rest (fun word child has => inRange word child (.inr has)) s

end

end HttpRouting
