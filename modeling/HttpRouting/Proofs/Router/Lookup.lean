import HttpRouting.Proofs.Pattern.Substitution
import HttpRouting.Proofs.Router.Tree
import Mathlib.Data.List.Nodup

/-!
# Looking a path up in a tree

A lookup tries the route that ends under the segments of the path and then the routes with variables
that are stored along them, the deepest node first. No path route whose pattern matches stands
elsewhere, so the tree of a table answers as the scan of the table does.
-/

namespace HttpRouting

variable {η : Type}

/-- What the search in a tree needs of its table: the path routes know their places, and no two have
the same segments. -/
structure IsTable (routes : List (PathRoute η)) : Prop where
  numbered : Numbered routes
  nodup_segments : (routes.map fun r => r.pattern.segments).Nodup

theorem IsTable.eq_of_segments_eq {routes : List (PathRoute η)} (table : IsTable routes)
    {r r' : PathRoute η} (hr : r ∈ routes) (hr' : r' ∈ routes)
    (heq : r.pattern.segments = r'.pattern.segments) : r = r' :=
  List.inj_on_of_nodup_map table.nodup_segments hr hr' heq

namespace Search

variable (routes : List (PathRoute η)) (m : Method) (path : String)

def attemptEnd (s : Search η) : Option Nat → Search η
  | none => s
  | some index => s.attemptAt routes m path index

def along (node : Node) (words : List (List Char)) (s : Search η) : Search η :=
  words.dropLast.inits.foldr
    (fun before => attemptWhileBefore routes m path (node.patternsAt before))
    (attemptEnd routes m path s (node.endAt words))

private theorem foldr_attemptWhileBefore_nil (l : List (List (List Char))) (s : Search η)
    {indices : List (List Char) → List Nat} (h : ∀ before, indices before = []) :
    l.foldr (fun before => attemptWhileBefore routes m path (indices before)) s = s := by
  induction l with
  | nil => rfl
  | cons before l ih => rw [List.foldr_cons, ih, h, attemptWhileBefore]

theorem along_empty (words : List (List Char)) (s : Search η) :
    along routes m path (Node.empty 0) words s = s := by
  rw [along, Node.endAt_empty]
  exact foldr_attemptWhileBefore_nil routes m path _ s fun before => Node.patternsAt_empty 0 before

theorem along_singleton (word : List Char) (depth : Nat) (children : Children)
    (ends : List (List Char × Nat)) (patternEnds : List Nat) (s : Search η) :
    along routes m path (.mk depth children ends patternEnds) [word] s =
      attemptWhileBefore routes m path patternEnds
        (attemptEnd routes m path s (ends.lookup word)) := rfl

theorem along_cons (word next : List Char) (words : List (List Char)) (depth : Nat)
    (children : Children) (ends : List (List Char × Nat)) (patternEnds : List Nat) (s : Search η) :
    along routes m path (.mk depth children ends patternEnds) (word :: next :: words) s =
      attemptWhileBefore routes m path patternEnds
        ((children.find? word).elim s fun child =>
          along routes m path child (next :: words) s) := by
  rw [along, List.dropLast_cons_of_ne_nil (List.cons_ne_nil _ _), List.inits_cons,
    List.foldr_cons, List.foldr_map, Node.patternsAt, Node.endAt]
  congr 1
  cases hchild : children.find? word with
  | none =>
      apply foldr_attemptWhileBefore_nil
      intro before
      rw [Node.patternsAt, hchild]
  | some child =>
      rw [Option.elim_some, along]
      congr 1
      funext before
      rw [Node.patternsAt, hchild]

variable {routes m path}

/-- In a tree whose nodes know their distance from the root, a search below a node goes along the
remaining segments. -/
theorem search_eq_along {segments front words : List (List Char)} (heq : segments = front ++ words)
    (ne : words ≠ []) {node : Node} (placed : node.Placed segments.length front.length)
    (s : Search η) : node.search routes segments m path s = along routes m path node words s := by
  induction words generalizing front node with
  | nil => exact absurd rfl ne
  | cons word words ih =>
      obtain ⟨depth, children, ends, patternEnds⟩ := node
      obtain ⟨rfl, -, hchildren⟩ := placed
      have hword : segments[front.length]? = some word := by simp [heq]
      rw [Node.search, hword]
      dsimp only
      cases words with
      | nil =>
          have hlen : front.length + 1 = segments.length := by simp [heq]
          rw [if_pos hlen, along_singleton]
          cases ends.lookup word <;> rfl
      | cons next words =>
          have hlen : front.length + 1 ≠ segments.length := by simp [heq]
          rw [if_neg hlen, along_cons, Children.search_eq]
          cases hchild : children.find? word with
          | none => rfl
          | some child =>
              have hplaced := Children.placed_of_find? children hchildren hchild
              rw [Option.elim_some, Option.elim_some]
              have hnext : segments = (front ++ [word]) ++ next :: words := by simp [heq]
              rw [ih hnext (List.cons_ne_nil _ _) (by simpa using hplaced)]

theorem Kept.attemptEnd {P : Search η → Prop} (kept : Kept routes m path P) (place : Option Nat)
    {s : Search η} (h : P s) : P (attemptEnd routes m path s place) := by
  cases place with
  | none => exact h
  | some index => exact kept.attemptAt index h

theorem Kept.along {P : Search η → Prop} (kept : Kept routes m path P) (node : Node)
    (words : List (List Char)) {s : Search η} (h : P s) : P (along routes m path node words s) := by
  rw [Search.along]
  generalize words.dropLast.inits = l
  induction l with
  | nil => exact kept.attemptEnd _ h
  | cons before l ih => exact kept.attemptWhileBefore _ ih

theorem covers_along_of_endAt {node : Node} {words : List (List Char)} {index : Nat}
    (hend : node.endAt words = some index) {r : PathRoute η} (hr : routes[index]? = some r)
    (s : Search η) : (along routes m path node words s).Covers r := by
  rw [along, hend]
  generalize words.dropLast.inits = l
  induction l with
  | nil => exact covers_attemptAt hr
  | cons before l ih => exact (kept_covers r).attemptWhileBefore _ ih

theorem covers_along_of_patternsAt (numbered : Numbered routes) {node : Node}
    {words before : List (List Char)} (hbefore : before <+: words.dropLast)
    (sorted : (node.patternsAt before).Pairwise (· < ·)) {index : Nat}
    (hmem : index ∈ node.patternsAt before) {r : PathRoute η} (hr : routes[index]? = some r)
    (s : Search η) : (along routes m path node words s).Covers r := by
  rw [along]
  rw [← List.mem_inits] at hbefore
  generalize words.dropLast.inits = l at hbefore
  induction l with
  | nil => simp at hbefore
  | cons first l ih =>
      rcases List.mem_cons.mp hbefore with rfl | hbefore
      · exact covers_attemptWhileBefore numbered sorted hmem hr
      · exact (kept_covers r).attemptWhileBefore _ (ih hbefore)

end Search

theorem literalPrefix_prefix_fill (segments : List Segment) (value : List Char → List Char) :
    literalPrefix segments <+: segments.map (Segment.fill value) := by
  induction segments with
  | nil => exact List.prefix_rfl
  | cons s segments ih =>
      rw [literalPrefix, List.takeWhile_cons]
      cases hs : s.isPattern with
      | true => exact List.nil_prefix
      | false =>
          rw [Bool.not_false, if_pos rfl, List.map_cons, List.map_cons,
            Segment.fill_of_isPattern_eq_false hs]
          exact (List.prefix_cons_inj _).mpr ih

theorem length_literalPrefix_lt {segments : List Segment} (h : isFixed segments = false) :
    (literalPrefix segments).length < segments.length := by
  induction segments with
  | nil => simp [isFixed] at h
  | cons s segments ih =>
      rw [literalPrefix, List.takeWhile_cons]
      cases hs : s.isPattern with
      | true => simp
      | false =>
          have htail : isFixed segments = false := by simpa [isFixed, hs] using h
          simpa [literalPrefix] using ih htail

theorem literalPrefix_prefix_dropLast {segments : List Segment} (h : isFixed segments = false)
    {words : List (List Char)} (len : segments.length = words.length)
    (leading : literalPrefix segments <+: words) : literalPrefix segments <+: words.dropLast := by
  refine List.prefix_of_prefix_length_le leading (List.dropLast_prefix words) ?_
  have hlt := length_literalPrefix_lt h
  rw [List.length_dropLast]
  omega

theorem map_fill_of_isFixed {segments : List Segment} (h : isFixed segments = true)
    (value : List Char → List Char) :
    segments.map (Segment.fill value) = segments.map Segment.text := by
  apply List.map_congr_left
  intro s hs
  have hliteral := List.all_eq_true.mp h s hs
  exact Segment.fill_of_isPattern_eq_false (by simpa using hliteral)

namespace SegmentTree

variable {routes : List (PathRoute η)} {m : Method} {path : String}

theorem search_ofRoutes (routes : List (PathRoute η)) (m : Method) (path : String) :
    (ofRoutes routes).search m path =
      match Path.segments path.toList with
      | [] => Search.attemptEnd routes m path {} ((ofRoutes routes).endAt [])
      | word :: words =>
          Search.along routes m path ((ofRoutes routes).root (word :: words).length)
            (word :: words) {} := by
  rw [search]
  cases hwords : Path.segments path.toList with
  | nil =>
      dsimp only
      rw [routes_ofRoutes, endAt]
      cases (ofRoutes routes).rootRoute <;> rfl
  | cons word words =>
      dsimp only
      have hpos : 0 < (word :: words).length := Nat.succ_pos _
      have placed := placed_ofRoutes routes hpos
      rw [routes_ofRoutes]
      rw [root] at placed ⊢
      cases hroot : (ofRoutes routes).roots.lookup (word :: words).length with
      | none => rw [Option.getD_none, Search.along_empty]
      | some node =>
          rw [hroot, Option.getD_some] at placed
          rw [Option.getD_some]
          have hwhole : word :: words = [] ++ word :: words := rfl
          exact Search.search_eq_along hwhole (List.cons_ne_nil _ _) placed {}

theorem sound_search (numbered : Numbered routes) (m : Method) (path : String) :
    Search.Sound routes m path ((ofRoutes routes).search m path) := by
  have kept : Search.Kept routes m path (Search.Sound routes m path) := Search.kept_sound numbered
  have start := Search.sound_empty routes m path
  rw [search_ofRoutes]
  split
  · exact kept.attemptEnd _ start
  · exact kept.along _ _ start

theorem endAt_of_isFixed (table : IsTable routes) {r : PathRoute η} (hr : r ∈ routes)
    (fixed : isFixed r.pattern.segments = true) :
    (ofRoutes routes).endAt (r.pattern.segments.map Segment.text) = some r.order := by
  rw [endAt_ofRoutes]
  have hmem : r.order ∈ placesOf routes fun segments => isFixed segments = true ∧
      segments.map Segment.text = r.pattern.segments.map Segment.text :=
    mem_placesOf_iff.mpr ⟨r, table.numbered.getElem?_order hr, by simpa using fixed⟩
  rw [List.getLast?_eq_some_getLast (List.ne_nil_of_mem hmem)]
  congr 1
  -- the last place with the same texts is that of the same segments, so of the same route
  obtain ⟨r', hi', hr'⟩ := mem_placesOf_iff.mp (List.getLast_mem (List.ne_nil_of_mem hmem))
  have texts := (of_decide_eq_true hr').2
  rw [r'.pattern.map_text_segments, r.pattern.map_text_segments, ← Pattern.segments_eq_iff] at texts
  have same : r' = r := table.eq_of_segments_eq (List.mem_of_getElem? hi') hr texts
  rw [← table.numbered _ r' hi', same]

/-- The search tries every path route whose pattern matches, or leaves it out for an earlier hit. -/
theorem covers_search (table : IsTable routes) {r : PathRoute η} (hr : r ∈ routes)
    (hmatch : r.pattern.isMatch path = true) :
    ((ofRoutes routes).search m path).Covers r := by
  obtain ⟨value, -, hfill⟩ := Pattern.isMatch_iff_exists_fills.mp hmatch
  have hplace := table.numbered.getElem?_order hr
  rw [search_ofRoutes, ← hfill]
  by_cases fixed : isFixed r.pattern.segments = true
  · have hend := endAt_of_isFixed table hr fixed
    rw [← map_fill_of_isFixed fixed value] at hend
    split
    · next hwords =>
      rw [hwords] at hend
      rw [hend]
      exact Search.covers_attemptAt hplace
    · next hwords =>
      rw [hwords] at hend
      exact Search.covers_along_of_endAt hend hplace {}
  · rw [Bool.not_eq_true] at fixed
    have hlen := length_literalPrefix_lt fixed
    have hprefix := literalPrefix_prefix_fill r.pattern.segments value
    have hcount : (r.pattern.segments.map (Segment.fill value)).length =
        r.pattern.segments.length := List.length_map _
    split
    · next hwords =>
      rw [hwords] at hcount
      rw [← hcount] at hlen
      simp at hlen
    · next word words hwords =>
      rw [hwords] at hprefix hcount
      have hbefore := literalPrefix_prefix_dropLast fixed hcount.symm hprefix
      have hstored := mem_patternsAt_ofRoutes_iff.mpr ⟨r, hplace, hcount.symm, fixed, rfl⟩
      exact Search.covers_along_of_patternsAt table.numbered hbefore
        (sorted_patternsAt_ofRoutes routes _ _) hstored hplace {}

/-- The tree of a table answers as the scan of the table. -/
theorem routing_ofRoutes (table : IsTable routes) (m : Method) (path : String) :
    (ofRoutes routes).routing m path = scan routes m path :=
  Search.routing_eq_scan table.numbered (sound_search table.numbered m path)
    fun _ hr hmatch => covers_search table hr hmatch

end SegmentTree

end HttpRouting
