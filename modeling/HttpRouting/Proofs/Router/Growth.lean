import HttpRouting.Proofs.Router.Storage

/-!
# How a tree grows

The tree of a table comes from that of the shorter table by inserting the last path route. Since no
two path routes of a table have the same segments, an insertion never takes the end of another one,
and the tree keeps one root for each number of segments, above nodes that keep their words apart.
-/

namespace HttpRouting

variable {η : Type}

namespace SegmentTree

/-- A tree with one root for each number of segments, above nodes that keep their words apart. -/
structure Tidy (tree : SegmentTree η) : Prop where
  nodup_counts : (tree.roots.map Prod.fst).Nodup
  placed : ∀ count root, (count, root) ∈ tree.roots → root.Placed count 0
  tidy : ∀ count root, (count, root) ∈ tree.roots → root.Tidy count

theorem mem_alterRoot {count n : Nat} {node : Node} {change : Node → Node}
    {roots : List (Nat × Node)} (h : (n, node) ∈ alterRoot count change roots) :
    (n, node) ∈ roots ∨ n = count ∧ node = change ((roots.lookup count).getD (Node.empty 0)) := by
  induction roots with
  | nil => simpa [alterRoot] using h
  | cons entry roots ih =>
      obtain ⟨key, first⟩ := entry
      rw [alterRoot] at h
      by_cases hkey : key = count
      · rw [if_pos hkey] at h
        rcases List.mem_cons.mp h with heq | h
        · obtain ⟨rfl, rfl⟩ := Prod.mk.inj heq
          exact .inr ⟨hkey, by simp [hkey]⟩
        · exact .inl (List.mem_cons_of_mem _ h)
      · have hbeq : (count == key) = false := by simpa using Ne.symm hkey
        rw [if_neg hkey] at h
        rw [List.lookup_cons, hbeq]
        rcases List.mem_cons.mp h with heq | h
        · exact .inl (heq ▸ List.mem_cons_self)
        · exact (ih h).imp (List.mem_cons_of_mem _) id

theorem nodup_counts_alterRoot {count : Nat} {change : Node → Node} {roots : List (Nat × Node)}
    (nodup : (roots.map Prod.fst).Nodup) :
    ((alterRoot count change roots).map Prod.fst).Nodup := by
  induction roots with
  | nil => exact List.nodup_singleton count
  | cons entry roots ih =>
      obtain ⟨key, first⟩ := entry
      rw [alterRoot]
      split
      · exact nodup
      · next hkey =>
        rw [List.map_cons, List.nodup_cons] at nodup ⊢
        refine ⟨fun h => ?_, ih nodup.2⟩
        obtain ⟨⟨n, node⟩, hmem, rfl⟩ := List.mem_map.mp h
        rcases mem_alterRoot hmem with hmem | ⟨heq, -⟩
        · exact nodup.1 (List.mem_map.mpr ⟨_, hmem, rfl⟩)
        · exact hkey heq

theorem tidy_insert {tree : SegmentTree η} (tidy : tree.Tidy) (index : Nat)
    {segments : List Segment}
    (free : isFixed segments = true → tree.endAt (segments.map Segment.text) = none) :
    (tree.insert index segments).Tidy := by
  cases segments with
  | nil => exact ⟨tidy.nodup_counts, tidy.placed, tidy.tidy⟩
  | cons s segments =>
      have hroot : (tree.root (s :: segments).length).Placed (s :: segments).length 0 ∧
          (tree.root (s :: segments).length).Tidy (s :: segments).length := by
        rw [root]
        cases hlookup : tree.roots.lookup (s :: segments).length with
        | none => exact ⟨⟨rfl, Nat.succ_pos _, trivial⟩, Node.tidy_empty _ 0⟩
        | some root =>
            have hmem := mem_of_lookup_eq_some hlookup
            exact ⟨tidy.placed _ _ hmem, tidy.tidy _ _ hmem⟩
      have hfree : isFixed (s :: segments) = true →
          (tree.root (s :: segments).length).endAt ((s :: segments).map Segment.text) = none := by
        intro fixed
        rw [← free fixed, List.map_cons, endAt, List.length_cons, List.length_cons,
          List.length_map]
      refine ⟨nodup_counts_alterRoot tidy.nodup_counts, ?_, ?_⟩
      · intro count root hmem
        rcases mem_alterRoot hmem with hmem | ⟨rfl, rfl⟩
        · exact tidy.placed count root hmem
        · exact Node.placed_insert index (Nat.zero_add _) hroot.1
      · intro count root hmem
        rcases mem_alterRoot hmem with hmem | ⟨rfl, rfl⟩
        · exact tidy.tidy count root hmem
        · exact Node.tidy_insert index hroot.2 hfree

def withRoutes (routes : List (PathRoute η)) (tree : SegmentTree η) : SegmentTree η :=
  { tree with routes := routes }

theorem insert_withRoutes (routes : List (PathRoute η)) (tree : SegmentTree η) (index : Nat)
    (segments : List Segment) :
    (tree.withRoutes routes).insert index segments =
      (tree.insert index segments).withRoutes routes := by
  cases segments <;> rfl

theorem ofRoutes_eq_foldl (routes : List (PathRoute η)) : ofRoutes routes =
    routes.zipIdx.foldl (fun tree place => tree.insert place.2 place.1.pattern.segments)
      ⟨routes, none, []⟩ := rfl

/-- The tree of a longer table is that of the shorter one with the last path route inserted. -/
theorem ofRoutes_append_singleton (routes : List (PathRoute η)) (r : PathRoute η) :
    ofRoutes (routes ++ [r]) =
      ((ofRoutes routes).insert routes.length r.pattern.segments).withRoutes (routes ++ [r]) := by
  have grown : routes.zipIdx.foldl
      (fun tree place => tree.insert place.2 place.1.pattern.segments)
        (withRoutes (routes ++ [r]) ⟨routes, none, []⟩) =
      (ofRoutes routes).withRoutes (routes ++ [r]) := by
    rw [ofRoutes_eq_foldl]
    exact List.foldl_hom _ fun tree place => insert_withRoutes _ tree place.2 _
  rw [← insert_withRoutes, ← grown, ofRoutes_eq_foldl, List.zipIdx_append, List.foldl_append,
    Nat.zero_add]
  rfl

end SegmentTree

theorem IsTable.of_append {front back : List (PathRoute η)} (table : IsTable (front ++ back)) :
    IsTable front where
  numbered := by
    intro i r hr
    refine table.numbered i r ?_
    rw [List.getElem?_append_left (List.getElem?_eq_some_iff.mp hr).1, hr]
  nodup_segments := by
    have nodup := table.nodup_segments
    rw [List.map_append] at nodup
    exact nodup.of_append_left

theorem IsTable.segments_ne {front back : List (PathRoute η)} {r r' : PathRoute η}
    (table : IsTable (front ++ r :: back)) (h : r' ∈ front) :
    r'.pattern.segments ≠ r.pattern.segments := by
  have nodup := table.nodup_segments
  rw [List.map_append, List.nodup_append] at nodup
  exact nodup.2.2 _ (List.mem_map_of_mem h) _ (by simp)

theorem Pattern.segments_eq_of_map_text_eq {p q : Pattern}
    (h : p.segments.map Segment.text = q.segments.map Segment.text) : p.segments = q.segments := by
  rw [segments_eq_iff, ← p.map_text_segments, ← q.map_text_segments, h]

namespace SegmentTree

variable {routes : List (PathRoute η)}

theorem endAt_eq_some_iff (table : IsTable routes) {words : List (List Char)} {index : Nat} :
    (ofRoutes routes).endAt words = some index ↔ ∃ r, routes[index]? = some r ∧
      isFixed r.pattern.segments = true ∧ r.pattern.segments.map Segment.text = words := by
  constructor
  · intro h
    rw [endAt_ofRoutes] at h
    obtain ⟨r, hr, hstored⟩ := mem_placesOf_iff.mp (List.mem_of_getLast? h)
    exact ⟨r, hr, of_decide_eq_true hstored⟩
  · rintro ⟨r, hr, fixed, rfl⟩
    rw [endAt_of_isFixed table (List.mem_of_getElem? hr) fixed, table.numbered index r hr]

theorem tidy_ofRoutes (table : IsTable routes) : (ofRoutes routes).Tidy := by
  induction routes using List.reverseRecOn with
  | nil => exact ⟨List.nodup_nil, by simp [ofRoutes], by simp [ofRoutes]⟩
  | append_singleton routes r ih =>
      rw [ofRoutes_append_singleton]
      have free : (ofRoutes routes).endAt (r.pattern.segments.map Segment.text) = none := by
        rw [Option.eq_none_iff_forall_ne_some]
        intro index h
        obtain ⟨r', hr', -, texts⟩ := (endAt_eq_some_iff table.of_append).mp h
        exact table.segments_ne (List.mem_of_getElem? hr') (Pattern.segments_eq_of_map_text_eq texts)
      have tidy := tidy_insert (ih table.of_append) routes.length fun _ => free
      exact ⟨tidy.nodup_counts, tidy.placed, tidy.tidy⟩

end SegmentTree

end HttpRouting
