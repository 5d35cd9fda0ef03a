import HttpRouting.Proofs.Router.Growth
import Mathlib.Data.List.TakeWhile

/-!
# What a search leaves out

The candidates for a path are the path routes with as many segments and with the same leading
literal segments. A tree stores them along the segments of the path, each in one place, and a search
comes to them in one order: first the route without variables, then the others, the deepest node
first. A search tries a part of the candidates, each once, and what it leaves out stands after its
hit.
-/

namespace HttpRouting

variable {η : Type}

theorem nodup_inits {α : Type} (l : List α) : l.inits.Nodup := by
  induction l with
  | nil => exact List.nodup_singleton []
  | cons a l ih =>
      rw [List.inits_cons, List.nodup_cons]
      exact ⟨by simp, ih.map List.cons_injective⟩

namespace Search

variable {routes : List (PathRoute η)} {m : Method} {path : String} {places : List Nat}
  {s : Search η}

def Within (places : List Nat) (s : Search η) : Prop := s.attempted.reverse.Sublist places

theorem within_empty : Within [] ({} : Search η) := List.Sublist.refl []

theorem Within.append (h : Within places s) (more : List Nat) : Within (places ++ more) s :=
  List.Sublist.trans h (List.sublist_append_left places more)

theorem Within.attempt (h : Within places s) (m : Method) (path : String) (r : PathRoute η) :
    Within (places ++ [r.order]) (s.attempt m path r) := by
  rw [Within, attempted_attempt, List.reverse_cons]
  exact List.Sublist.append h (List.Sublist.refl [r.order])

theorem Within.attemptAt (numbered : Numbered routes) (h : Within places s) (index : Nat) :
    Within (places ++ [index]) (s.attemptAt routes m path index) := by
  rw [Search.attemptAt]
  split
  · exact h.append [index]
  · next r hr =>
    rw [← numbered index r hr]
    exact h.attempt m path r

theorem Within.attemptEnd (numbered : Numbered routes) (h : Within places s)
    (place : Option Nat) :
    Within (places ++ place.toList) (attemptEnd routes m path s place) := by
  cases place with
  | none => exact h.append []
  | some index => exact h.attemptAt numbered index

theorem Within.attemptWhileBefore (numbered : Numbered routes) (h : Within places s)
    (indices : List Nat) :
    Within (places ++ indices) (attemptWhileBefore routes m path indices s) := by
  induction indices generalizing places s with
  | nil => exact h.append []
  | cons index rest ih =>
      rw [List.append_cons, Search.attemptWhileBefore]
      split
      · exact ih (h.append [index])
      · next r hr =>
        split
        · exact (h.append [index]).append rest
        · have tried := h.attempt m path r
          rw [numbered index r hr] at tried
          exact ih tried

theorem Within.along (numbered : Numbered routes) (h : Within places s) (node : Node)
    (words : List (List Char)) :
    Within (places ++ ((node.endAt words).toList ++
        words.dropLast.inits.reverse.flatMap fun before => node.patternsAt before))
      (along routes m path node words s) := by
  rw [Search.along, ← List.append_assoc]
  -- the fold begins at the longest part of the words, so its last step is at the shortest one
  induction words.dropLast.inits with
  | nil => exact (h.attemptEnd numbered _).append []
  | cons before l ih =>
      rw [List.reverse_cons, List.flatMap_append, List.flatMap_singleton, ← List.append_assoc,
        List.foldr_cons]
      exact ih.attemptWhileBefore numbered _

end Search

theorem literalPrefix_of_isFixed {segments : List Segment} (h : isFixed segments = true) :
    literalPrefix segments = segments.map Segment.text := by
  rw [literalPrefix, List.takeWhile_eq_self_iff.mpr (List.all_eq_true.mp h)]

namespace SegmentTree

variable {routes : List (PathRoute η)} {words : List (List Char)} {index : Nat}

/-- The places that a tree stores along the segments of a path, in the order in which a search comes
to them. -/
def candidates (tree : SegmentTree η) (words : List (List Char)) : List Nat :=
  (tree.endAt words).toList ++ words.dropLast.inits.reverse.flatMap fun before =>
    (tree.root words.length).patternsAt before

/-- The candidates for a path share its number of segments and its leading literal segments, and all
path routes that do are candidates. -/
theorem mem_candidates_iff (table : IsTable routes) :
    index ∈ (ofRoutes routes).candidates words ↔ ∃ r, routes[index]? = some r ∧
      r.pattern.segments.length = words.length ∧ literalPrefix r.pattern.segments <+: words := by
  rw [candidates, List.mem_append, Option.mem_toList, endAt_eq_some_iff table,
    List.mem_flatMap]
  constructor
  · rintro (⟨r, hr, fixed, rfl⟩ | ⟨before, hbefore, hmem⟩)
    · refine ⟨r, hr, (List.length_map _).symm, ?_⟩
      rw [literalPrefix_of_isFixed fixed]
    · obtain ⟨r, hr, len, -, rfl⟩ := mem_patternsAt_ofRoutes_iff.mp hmem
      rw [List.mem_reverse, List.mem_inits] at hbefore
      exact ⟨r, hr, len, hbefore.trans (List.dropLast_prefix words)⟩
  · rintro ⟨r, hr, len, leading⟩
    by_cases fixed : isFixed r.pattern.segments = true
    · rw [literalPrefix_of_isFixed fixed] at leading
      exact .inl ⟨r, hr, fixed, leading.eq_of_length ((List.length_map _).trans len)⟩
    · rw [Bool.not_eq_true] at fixed
      have hbefore := literalPrefix_prefix_dropLast fixed len leading
      rw [← List.mem_inits, ← List.mem_reverse] at hbefore
      exact .inr ⟨_, hbefore, mem_patternsAt_ofRoutes_iff.mpr ⟨r, hr, len, fixed, rfl⟩⟩

theorem nodup_candidates (table : IsTable routes) (words : List (List Char)) :
    ((ofRoutes routes).candidates words).Nodup := by
  rw [candidates]
  refine (Option.toList_nodup _).append (List.nodup_flatMap.mpr ⟨?_, ?_⟩) ?_
  · intro before _
    exact (sorted_patternsAt_ofRoutes routes _ before).imp Nat.ne_of_lt
  · refine (List.nodup_reverse.mpr (nodup_inits words.dropLast)).imp ?_
    rintro before other hne index hbefore hother
    obtain ⟨r, hr, -, -, rfl⟩ := mem_patternsAt_ofRoutes_iff.mp hbefore
    obtain ⟨r', hr', -, -, rfl⟩ := mem_patternsAt_ofRoutes_iff.mp hother
    rw [hr] at hr'
    cases hr'
    exact hne rfl
  · intro index hend hpatterns
    rw [Option.mem_toList, endAt_eq_some_iff table] at hend
    obtain ⟨r, hr, fixed, -⟩ := hend
    obtain ⟨before, -, hmem⟩ := List.mem_flatMap.mp hpatterns
    obtain ⟨r', hr', -, patterned, -⟩ := mem_patternsAt_ofRoutes_iff.mp hmem
    rw [hr] at hr'
    cases hr'
    rw [fixed] at patterned
    cases patterned

theorem within_candidates (numbered : Numbered routes) (m : Method) (path : String) :
    Search.Within ((ofRoutes routes).candidates (Path.segments path.toList))
      ((ofRoutes routes).search m path) := by
  have start : Search.Within [] ({} : Search η) := Search.within_empty
  rw [search_ofRoutes, candidates]
  cases Path.segments path.toList with
  | nil => exact (start.attemptEnd numbered _).append _
  | cons word words => exact start.along numbered _ _

theorem tried_or_after_hit (table : IsTable routes) {m : Method} {path : String}
    {r : PathRoute η} (hr : routes[index]? = some r) (hmatch : r.pattern.isMatch path = true) :
    index ∈ ((ofRoutes routes).search m path).attempted ∨
      ∃ found hit, (ofRoutes routes).routing m path = .matched found ∧
        routes[hit]? = some found.pathRoute ∧ hit < index := by
  rw [← table.numbered index r hr]
  refine (covers_search table (List.mem_of_getElem? hr) hmatch).imp id fun hbefore => ?_
  obtain ⟨found, hfound, hlt⟩ := Search.hitBefore_eq_true_iff.mp hbefore
  obtain ⟨r', hr', hit⟩ := (sound_search table.numbered m path).hit_mem found hfound
  obtain rfl := PathRoute.pathRoute_of_hit? hit
  refine ⟨found, _, ?_, table.numbered.getElem?_order hr', hlt⟩
  rw [routing, Search.routing, hfound]

end SegmentTree

/-- A search in the tree of a table that is built tries no path route twice, and only those that
share the number of segments and the leading literal segments of the path. It leaves out no path
route whose pattern matches, except for those that stand after its hit. -/
theorem search_prunes (config : Config) (registrations : List (Registration η)) (m : Method)
    (path : String) :
    let table := (Builder.registerEach { config := config } registrations).table
    let tree := SegmentTree.ofRoutes table
    let tried := (tree.search m path).attempted
    tried.Nodup ∧
    (∀ index ∈ tried, ∃ r, table[index]? = some r ∧
      r.pattern.segments.length = (Path.segments path.toList).length ∧
      literalPrefix r.pattern.segments <+: Path.segments path.toList) ∧
    (∀ index r, table[index]? = some r → r.pattern.isMatch path = true →
      index ∈ tried ∨ ∃ found hit, tree.routing m path = .matched found ∧
        table[hit]? = some found.pathRoute ∧ hit < index) ∧
    ((tree.routing m path).isMatched = false →
      ∀ index r, table[index]? = some r → r.pattern.isMatch path = true → index ∈ tried) := by
  intro table tree tried
  have isTable : IsTable table := Builder.isTable_table config registrations
  have within : tried.reverse.Sublist (tree.candidates (Path.segments path.toList)) :=
    SegmentTree.within_candidates isTable.numbered m path
  refine ⟨?_, ?_, ?_, ?_⟩
  · exact List.nodup_reverse.mp ((SegmentTree.nodup_candidates isTable _).sublist within)
  · intro index hindex
    exact (SegmentTree.mem_candidates_iff isTable).mp
      (within.subset (List.mem_reverse.mpr hindex))
  · intro index r hr hmatch
    exact SegmentTree.tried_or_after_hit isTable hr hmatch
  · intro hmiss index r hr hmatch
    refine (SegmentTree.tried_or_after_hit isTable hr hmatch).resolve_right ?_
    rintro ⟨found, hit, hfound, -⟩
    change tree.routing m path = _ at hfound
    rw [hfound] at hmiss
    cases hmiss

example :
    let registrations : List (Registration String) :=
      [⟨"/a/\x7bid\x7d", .only [.get], "item"⟩, ⟨"/\x7bkind\x7d/b", .any, "kind"⟩]
    let tree := SegmentTree.ofRoutes (Builder.registerEach {} registrations).table
    (tree.search .get "/a/b").attempted = [0] ∧ (tree.search .post "/a/b").attempted = [1, 0] := by
  decide +kernel

end HttpRouting
