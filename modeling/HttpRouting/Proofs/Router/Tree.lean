import HttpRouting.Proofs.Router.Search
import Mathlib.Data.List.Infix

/-!
# Where a tree stores the routes of a table

A tree is observed by the places that it stores at a node and by the place that it stores under a
list of literal segments. Each insertion adds one place to one of these observations and leaves the
others as they are, so the observations of the tree of a table can be read off the table. A search
tries what is stored for the path, the deepest node first.
-/

namespace HttpRouting

variable {η : Type}

/-- The texts of the literal segments before the first segment that holds a variable. -/
def literalPrefix (segments : List Segment) : List (List Char) :=
  (segments.takeWhile fun s => !s.isPattern).map Segment.text

def isFixed (segments : List Segment) : Bool := segments.all fun s => !s.isPattern

namespace Node

/-- The routes with variables at the node that is reached through literal segments. -/
def patternsAt : List (List Char) → Node → List Nat
  | [], .mk _ _ _ patternEnds => patternEnds
  | word :: before, .mk _ children _ _ =>
      match children.find? word with
      | none => []
      | some child => child.patternsAt before

def endAt : List (List Char) → Node → Option Nat
  | [], _ => none
  | [word], .mk _ _ ends _ => ends.lookup word
  | word :: next :: rest, .mk _ children _ _ =>
      match children.find? word with
      | none => none
      | some child => child.endAt (next :: rest)

theorem patternsAt_empty (depth : Nat) (before : List (List Char)) :
    (empty depth).patternsAt before = [] := by
  cases before <;> rfl

theorem endAt_empty (depth : Nat) (words : List (List Char)) :
    (empty depth).endAt words = none := by
  match words with
  | [] => rfl
  | [_] => rfl
  | _ :: _ :: _ => rfl

theorem patternsAt_cons (word : List Char) (before : List (List Char)) (depth d : Nat)
    (children : Children) (ends : List (List Char × Nat)) (patternEnds : List Nat) :
    (mk depth children ends patternEnds).patternsAt (word :: before) =
      ((children.find? word).getD (empty d)).patternsAt before := by
  rw [patternsAt]
  cases children.find? word with
  | none => rw [Option.getD_none, patternsAt_empty]
  | some child => rfl

theorem endAt_cons (word next : List Char) (rest : List (List Char)) (depth d : Nat)
    (children : Children) (ends : List (List Char × Nat)) (patternEnds : List Nat) :
    (mk depth children ends patternEnds).endAt (word :: next :: rest) =
      ((children.find? word).getD (empty d)).endAt (next :: rest) := by
  rw [endAt]
  cases children.find? word with
  | none => rw [Option.getD_none, endAt_empty]
  | some child => rfl

theorem patternsAt_insert (index : Nat) (segments : List Segment) (before : List (List Char))
    (node : Node) :
    (insert index segments node).patternsAt before = node.patternsAt before ++
      if isFixed segments = false ∧ literalPrefix segments = before then [index] else [] := by
  induction segments generalizing before node with
  | nil => simp [insert, isFixed]
  | cons segment rest ih =>
      obtain ⟨depth, children, ends, patternEnds⟩ := node
      rw [insert]
      by_cases hpattern : segment.isPattern = true
      · rw [if_pos hpattern]
        cases before <;> simp [patternsAt, isFixed, literalPrefix, hpattern]
      · rw [if_neg hpattern]
        split
        · next hrest =>
          rw [List.isEmpty_iff.mp hrest]
          cases before <;> simp [patternsAt, isFixed, hpattern]
        · cases before with
          | nil => simp [patternsAt, isFixed, literalPrefix, hpattern]
          | cons word before =>
              rw [patternsAt_cons _ _ _ (depth + 1), patternsAt_cons _ _ _ (depth + 1)]
              by_cases hword : word = segment.text
              · rw [hword, Children.find?_alter_self, Option.getD_some, ih]
                simp [isFixed, literalPrefix, hpattern]
              · rw [Children.find?_alter_of_ne hword]
                simp [literalPrefix, hpattern, Ne.symm hword]

theorem endAt_insert (index : Nat) {segments : List Segment} (ne : segments ≠ [])
    (words : List (List Char)) (node : Node) :
    (insert index segments node).endAt words =
      if isFixed segments = true ∧ segments.map Segment.text = words then some index
      else node.endAt words := by
  induction segments generalizing words node with
  | nil => exact absurd rfl ne
  | cons segment rest ih =>
      obtain ⟨depth, children, ends, patternEnds⟩ := node
      rw [insert]
      by_cases hpattern : segment.isPattern = true
      · rw [if_pos hpattern, if_neg (by simp [isFixed, hpattern])]
        match words with
        | [] => rfl
        | [_] => rfl
        | _ :: _ :: _ => rfl
      · rw [if_neg hpattern]
        cases rest with
        | nil =>
            rw [if_pos List.isEmpty_nil]
            match words with
            | [] => simp [endAt]
            | [word] =>
                rw [endAt, List.lookup_cons]
                by_cases hword : word = segment.text
                · simp [isFixed, hpattern, hword]
                · have hbeq : (word == segment.text) = false := by simpa using hword
                  simp [hbeq, Ne.symm hword, endAt]
            | _ :: _ :: _ => simp [endAt]
        | cons second rest =>
            rw [if_neg (by simp)]
            match words with
            | [] => simp [endAt]
            | [_] => simp [endAt]
            | word :: next :: words =>
                rw [endAt_cons _ _ _ _ (depth + 1), endAt_cons _ _ _ _ (depth + 1)]
                by_cases hword : word = segment.text
                · rw [hword, Children.find?_alter_self, Option.getD_some,
                    ih (List.cons_ne_nil _ _)]
                  simp [isFixed, hpattern]
                · rw [Children.find?_alter_of_ne hword]
                  simp [Ne.symm hword]

end Node

mutual

/-- Every node of a tree for templates with `count` segments knows its distance from the root, and
that is less than `count`. -/
def Node.Placed (count : Nat) : Nat → Node → Prop
  | d, .mk depth children _ _ => depth = d ∧ d < count ∧ children.Placed count (d + 1)

def Children.Placed (count : Nat) : Nat → Children → Prop
  | _, .nil => True
  | d, .cons _ child rest => child.Placed count d ∧ rest.Placed count d

end

theorem Children.placed_of_find? {count d : Nat} {word : List Char} {child : Node} :
    (children : Children) → children.Placed count d → children.find? word = some child →
      child.Placed count d
  | .nil, _, h => by simp [Children.find?] at h
  | .cons key first rest, placed, h => by
      rw [Children.Placed] at placed
      rw [Children.find?] at h
      split at h
      · cases h
        exact placed.1
      · exact placed_of_find? rest placed.2 h

theorem Children.placed_alter {count d : Nat} {word : List Char} {change : Node → Node}
    (hd : d < count) (kept : ∀ node : Node, node.Placed count d → (change node).Placed count d) :
    (children : Children) → children.Placed count d → (children.alter word d change).Placed count d
  | .nil, _ => by
      rw [Children.alter, Children.Placed]
      refine ⟨kept _ ?_, trivial⟩
      rw [Node.empty, Node.Placed]
      exact ⟨rfl, hd, trivial⟩
  | .cons key first rest, placed => by
      rw [Children.Placed] at placed
      rw [Children.alter]
      split
      · rw [Children.Placed]
        exact ⟨kept first placed.1, placed.2⟩
      · rw [Children.Placed]
        exact ⟨placed.1, placed_alter hd kept rest placed.2⟩

theorem Node.placed_insert (index : Nat) {segments : List Segment} {count d : Nat}
    (len : d + segments.length = count) {node : Node} (placed : node.Placed count d) :
    (insert index segments node).Placed count d := by
  induction segments generalizing d node with
  | nil => exact placed
  | cons segment rest ih =>
      obtain ⟨depth, children, ends, patternEnds⟩ := node
      rw [Node.Placed] at placed
      obtain ⟨rfl, hd, hchildren⟩ := placed
      rw [insert]
      split
      · exact ⟨rfl, hd, hchildren⟩
      · split
        · exact ⟨rfl, hd, hchildren⟩
        · next hrest =>
          rw [List.length_cons] at len
          have hlt : depth + 1 < count := by
            have hpos := List.length_pos_iff.mpr fun h => hrest (List.isEmpty_iff.mpr h)
            omega
          refine ⟨rfl, hd, Children.placed_alter hlt ?_ children hchildren⟩
          intro node hnode
          exact ih (by omega) hnode

namespace SegmentTree

def root (tree : SegmentTree η) (count : Nat) : Node :=
  (tree.roots.lookup count).getD (Node.empty 0)

def endAt (tree : SegmentTree η) : List (List Char) → Option Nat
  | [] => tree.rootRoute
  | word :: words => (tree.root (word :: words).length).endAt (word :: words)

theorem lookup_alterRoot (count n : Nat) (change : Node → Node) (roots : List (Nat × Node)) :
    (alterRoot count change roots).lookup n =
      if n = count then some (change ((roots.lookup n).getD (Node.empty 0)))
      else roots.lookup n := by
  induction roots with
  | nil =>
      by_cases hn : n = count
      · simp [alterRoot, hn]
      · have hbeq : (n == count) = false := by simpa using hn
        simp [alterRoot, List.lookup_cons, hn, hbeq]
  | cons entry roots ih =>
      obtain ⟨key, node⟩ := entry
      rw [alterRoot]
      by_cases hkey : key = count
      · rw [if_pos hkey]
        by_cases hn : n = count
        · simp [hkey, hn]
        · have hbeq : (n == key) = false := by simpa [hkey] using hn
          simp [List.lookup_cons, hbeq, hn]
      · rw [if_neg hkey, List.lookup_cons, List.lookup_cons, ih]
        by_cases hn : n = key
        · have hcount : n ≠ count := fun h => hkey (hn ▸ h)
          simp [hn, hkey]
        · have hbeq : (n == key) = false := by simpa using hn
          simp [hbeq]

theorem root_insert (tree : SegmentTree η) (index : Nat) {segments : List Segment}
    (ne : segments ≠ []) (count : Nat) :
    (tree.insert index segments).root count =
      if count = segments.length then Node.insert index segments (tree.root count)
      else tree.root count := by
  cases segments with
  | nil => exact absurd rfl ne
  | cons s segments =>
      change ((alterRoot _ _ tree.roots).lookup count).getD (Node.empty 0) = _
      rw [lookup_alterRoot]
      split
      · rfl
      · rfl

theorem patternsAt_insert (tree : SegmentTree η) (index : Nat) (segments : List Segment)
    (count : Nat) (before : List (List Char)) :
    ((tree.insert index segments).root count).patternsAt before =
      (tree.root count).patternsAt before ++
        if segments.length = count ∧ isFixed segments = false ∧ literalPrefix segments = before
        then [index] else [] := by
  cases segments with
  | nil => simp [insert, root, isFixed]
  | cons s segments =>
      rw [root_insert tree index (List.cons_ne_nil _ _)]
      by_cases hcount : count = (s :: segments).length
      · rw [if_pos hcount, Node.patternsAt_insert]
        simp [← hcount]
      · rw [if_neg hcount, if_neg fun h => hcount h.1.symm, List.append_nil]

theorem endAt_insert (tree : SegmentTree η) (index : Nat) (segments : List Segment)
    (words : List (List Char)) :
    (tree.insert index segments).endAt words =
      if isFixed segments = true ∧ segments.map Segment.text = words then some index
      else tree.endAt words := by
  cases segments with
  | nil =>
      cases words with
      | nil => simp [insert, endAt, isFixed]
      | cons word words => simp [insert, endAt, root]
  | cons s segments =>
      cases words with
      | nil => simp [insert, endAt]
      | cons word words =>
          rw [endAt, root_insert tree index (List.cons_ne_nil _ _)]
          by_cases hcount : (word :: words).length = (s :: segments).length
          · rw [if_pos hcount, Node.endAt_insert index (List.cons_ne_nil _ _), endAt]
          · rw [if_neg hcount, if_neg, endAt]
            rintro ⟨-, heq⟩
            rw [← heq, List.length_map] at hcount
            exact hcount rfl

theorem placed_insert {tree : SegmentTree η} {count : Nat}
    (placed : (tree.root count).Placed count 0) (index : Nat) (segments : List Segment) :
    ((tree.insert index segments).root count).Placed count 0 := by
  cases segments with
  | nil => exact placed
  | cons s segments =>
      rw [root_insert tree index (List.cons_ne_nil _ _)]
      split
      · next hcount => exact Node.placed_insert index (by omega) placed
      · exact placed

private def insertAll (tree : SegmentTree η) (places : List (PathRoute η × Nat)) : SegmentTree η :=
  places.foldl (fun tree (route, index) => tree.insert index route.pattern.segments) tree

private theorem insertAll_cons (tree : SegmentTree η) (place : PathRoute η × Nat)
    (places : List (PathRoute η × Nat)) :
    insertAll tree (place :: places) =
      insertAll (tree.insert place.2 place.1.pattern.segments) places := rfl

def placesOf (routes : List (PathRoute η)) (q : List Segment → Bool) : List Nat :=
  (routes.zipIdx.filter fun place => q place.1.pattern.segments).map Prod.snd

theorem mem_placesOf_iff {routes : List (PathRoute η)} {q : List Segment → Bool} {index : Nat} :
    index ∈ placesOf routes q ↔ ∃ r, routes[index]? = some r ∧ q r.pattern.segments = true := by
  simp only [placesOf, List.mem_map, List.mem_filter, Prod.exists]
  constructor
  · rintro ⟨r, i, ⟨hmem, hq⟩, rfl⟩
    exact ⟨r, List.mem_zipIdx_iff_getElem?.mp hmem, hq⟩
  · rintro ⟨r, hr, hq⟩
    exact ⟨r, index, ⟨List.mem_zipIdx_iff_getElem?.mpr hr, hq⟩, rfl⟩

theorem sorted_placesOf (routes : List (PathRoute η)) (q : List Segment → Bool) :
    (placesOf routes q).Pairwise (· < ·) := by
  have all : (routes.zipIdx.map Prod.snd).Pairwise (· < ·) := by
    rw [List.zipIdx_map_snd]
    exact List.pairwise_lt_range'
  exact all.sublist (List.filter_sublist.map Prod.snd)

/-- A node stores the routes whose literal segments lead to it, in table order. -/
theorem patternsAt_ofRoutes (routes : List (PathRoute η)) (count : Nat)
    (before : List (List Char)) :
    ((ofRoutes routes).root count).patternsAt before = placesOf routes fun segments =>
      segments.length = count ∧ isFixed segments = false ∧ literalPrefix segments = before := by
  have stored : ∀ (places : List (PathRoute η × Nat)) (tree : SegmentTree η),
      ((insertAll tree places).root count).patternsAt before =
        (tree.root count).patternsAt before ++ (places.filter fun place =>
          decide (place.1.pattern.segments.length = count ∧
            isFixed place.1.pattern.segments = false ∧
            literalPrefix place.1.pattern.segments = before)).map Prod.snd := by
    intro places
    induction places with
    | nil =>
        intro tree
        simp [insertAll]
    | cons place places ih =>
        intro tree
        rw [insertAll_cons, ih, patternsAt_insert, List.append_assoc, List.filter_cons]
        split
        · next h => simp [h]
        · next h => simp [h]
  have h := stored routes.zipIdx ⟨routes, none, []⟩
  rw [show root (⟨routes, none, []⟩ : SegmentTree η) count = Node.empty 0 from rfl,
    Node.patternsAt_empty, List.nil_append] at h
  exact h

theorem mem_patternsAt_ofRoutes_iff {routes : List (PathRoute η)} {count index : Nat}
    {before : List (List Char)} :
    index ∈ ((ofRoutes routes).root count).patternsAt before ↔ ∃ r, routes[index]? = some r ∧
      r.pattern.segments.length = count ∧ isFixed r.pattern.segments = false ∧
        literalPrefix r.pattern.segments = before := by
  simp only [patternsAt_ofRoutes, mem_placesOf_iff, decide_eq_true_eq]

theorem sorted_patternsAt_ofRoutes (routes : List (PathRoute η)) (count : Nat)
    (before : List (List Char)) :
    (((ofRoutes routes).root count).patternsAt before).Pairwise (· < ·) := by
  rw [patternsAt_ofRoutes]
  exact sorted_placesOf routes _

theorem endAt_ofRoutes (routes : List (PathRoute η)) (words : List (List Char)) :
    (ofRoutes routes).endAt words = (placesOf routes fun segments =>
      isFixed segments = true ∧ segments.map Segment.text = words).getLast? := by
  have stored : ∀ (places : List (PathRoute η × Nat)) (tree : SegmentTree η),
      (insertAll tree places).endAt words = ((places.filter fun place =>
        decide (isFixed place.1.pattern.segments = true ∧
          place.1.pattern.segments.map Segment.text = words)).map Prod.snd).getLast?.or
            (tree.endAt words) := by
    intro places
    induction places with
    | nil =>
        intro tree
        simp [insertAll]
    | cons place places ih =>
        intro tree
        rw [insertAll_cons, ih, endAt_insert, List.filter_cons]
        split
        · next h =>
          rw [if_pos (decide_eq_true h), List.map_cons, List.getLast?_cons]
          cases (List.map Prod.snd _).getLast? <;> rfl
        · next h => rw [if_neg (by simpa using h)]
  have h := stored routes.zipIdx ⟨routes, none, []⟩
  have start : endAt (⟨routes, none, []⟩ : SegmentTree η) words = none := by
    cases words with
    | nil => rfl
    | cons word words => exact Node.endAt_empty 0 _
  rw [start, Option.or_none] at h
  exact h

theorem placed_ofRoutes (routes : List (PathRoute η)) {count : Nat} (hcount : 0 < count) :
    ((ofRoutes routes).root count).Placed count 0 := by
  have stored : ∀ (places : List (PathRoute η × Nat)) (tree : SegmentTree η),
      (tree.root count).Placed count 0 → ((insertAll tree places).root count).Placed count 0 := by
    intro places
    induction places with
    | nil =>
        intro tree placed
        exact placed
    | cons place places ih =>
        intro tree placed
        rw [insertAll_cons]
        exact ih _ (placed_insert placed _ _)
  exact stored routes.zipIdx ⟨routes, none, []⟩ ⟨rfl, hcount, trivial⟩

end SegmentTree

end HttpRouting
