import HttpRouting.Proofs.Router.Bounds
import HttpRouting.Proofs.Router.Growth

/-!
# What the tree of a table stores

The tree of a table stores the place of each path route once, where its template says: in the root
place, as an end, or among the routes with variables of a node. No insertion takes a place that is
in use. The nodes know their distance from the root, so a search never asks for a segment or for a
path route that does not exist.
-/

namespace HttpRouting

variable {η : Type}

/-- Where a tree can store the place of a path route. A node is given by the number of segments of
its root and by the words that lead to it from there. -/
inductive Slot where
  | root
  | ends (count : Nat) (words : List (List Char)) (last : List Char)
  | patternEnds (count : Nat) (words : List (List Char))
deriving DecidableEq

def Slot.isSingle : Slot → Bool
  | .root | .ends .. => true
  | .patternEnds .. => false

/-- The slot of a template: below the root of its number of segments, at the node that its leading
literal segments lead to, or under its last segment if all are literal. -/
def Pattern.slot (p : Pattern) : Slot :=
  match p.segments.getLast? with
  | none => .root
  | some last =>
      if p.hasVariables then .patternEnds p.segments.length (literalPrefix p.segments)
      else .ends p.segments.length (p.segments.dropLast.map Segment.text) last.text

theorem length_literalPrefix (segments : List Segment) :
    (literalPrefix segments).length = segments.findIdx Segment.isPattern := by
  rw [literalPrefix, List.length_map]
  induction segments with
  | nil => rfl
  | cons s segments ih =>
      rw [List.takeWhile_cons, List.findIdx_cons]
      cases s.isPattern with
      | true => rfl
      | false => simp [ih]

namespace Pattern

theorem hasVariables_eq (p : Pattern) : p.hasVariables = !isFixed p.segments := by
  rw [Bool.eq_iff_iff]
  simp [hasVariables, names, isFixed, ← Segment.isPattern_eq_false_iff]

theorem slot_eq_root_iff {p : Pattern} : p.slot = .root ↔ p.segments = [] := by
  unfold slot
  split
  · next h => simpa using h
  · next last h =>
    have ne : p.segments ≠ [] := by
      intro hnil
      simp [hnil] at h
    split <;> simp [ne]

theorem slot_eq_patternEnds_iff {p : Pattern} {count : Nat} {words : List (List Char)} :
    p.slot = .patternEnds count words ↔ p.segments.length = count ∧
      isFixed p.segments = false ∧ literalPrefix p.segments = words := by
  unfold slot
  rw [hasVariables_eq]
  split
  · next h =>
    rw [List.getLast?_eq_none_iff] at h
    simp [h, isFixed]
  · cases isFixed p.segments <;> simp

theorem slot_eq_ends_iff {p : Pattern} {count : Nat} {words : List (List Char)}
    {last : List Char} : p.slot = .ends count words last ↔ p.segments.length = count ∧
      isFixed p.segments = true ∧ p.segments.map Segment.text = words ++ [last] := by
  unfold slot
  rw [hasVariables_eq]
  split
  · next h =>
    rw [List.getLast?_eq_none_iff] at h
    simp [h]
  · next s h =>
    obtain ⟨front, heq⟩ := List.getLast?_eq_some_iff.mp h
    have texts : p.segments.map Segment.text = front.map Segment.text ++ [s.text] := by
      rw [heq, List.map_append, List.map_singleton]
    have hfront : p.segments.dropLast = front := by rw [heq, List.dropLast_concat]
    rw [texts, hfront]
    cases isFixed p.segments <;> simp

end Pattern

namespace SegmentTree

def Reaches (tree : SegmentTree η) (count : Nat) (words : List (List Char)) (node : Node) : Prop :=
  ∃ root, (count, root) ∈ tree.roots ∧ root.Reaches words node

def Holds (tree : SegmentTree η) (index : Nat) : Slot → Prop
  | .root => tree.rootRoute = some index
  | .ends count words last => ∃ node, tree.Reaches count words node ∧ (last, index) ∈ node.ends
  | .patternEnds count words => ∃ node, tree.Reaches count words node ∧ index ∈ node.patternEnds

end SegmentTree

namespace SegmentTree.Tidy

variable {tree : SegmentTree η} {count index : Nat} {words : List (List Char)}

theorem root_eq (tidy : tree.Tidy) {root : Node} (h : (count, root) ∈ tree.roots) :
    tree.root count = root := by
  rw [SegmentTree.root, (lookup_eq_some_iff_mem tidy.nodup_counts).mpr h, Option.getD_some]

theorem root_mem_or_eq_empty (tidy : tree.Tidy) (count : Nat) :
    (count, tree.root count) ∈ tree.roots ∨ tree.root count = Node.empty 0 := by
  rw [SegmentTree.root]
  cases hlookup : tree.roots.lookup count with
  | none => exact .inr rfl
  | some root => exact .inl ((lookup_eq_some_iff_mem tidy.nodup_counts).mp hlookup)

theorem holds_patternEnds_iff (tidy : tree.Tidy) :
    tree.Holds index (.patternEnds count words) ↔ index ∈ (tree.root count).patternsAt words := by
  constructor
  · rintro ⟨node, ⟨root, hroot, reaches⟩, hmem⟩
    rw [tidy.root_eq hroot, reaches.patternsAt_eq (tidy.tidy count root hroot)]
    exact hmem
  · intro hmem
    rcases tidy.root_mem_or_eq_empty count with hroot | hempty
    · obtain ⟨node, reaches⟩ := Node.reaches_of_mem_patternsAt hmem
      rw [reaches.patternsAt_eq (tidy.tidy _ _ hroot)] at hmem
      exact ⟨node, ⟨_, hroot, reaches⟩, hmem⟩
    · rw [hempty, Node.patternsAt_empty] at hmem
      cases hmem

theorem holds_ends_iff (tidy : tree.Tidy) {last : List Char} :
    tree.Holds index (.ends count words last) ↔
      words.length + 1 = count ∧ tree.endAt (words ++ [last]) = some index := by
  have whole : tree.endAt (words ++ [last]) =
      (tree.root (words.length + 1)).endAt (words ++ [last]) := by
    cases words with
    | nil => rfl
    | cons word words => rw [List.cons_append, endAt]; simp
  rw [whole]
  constructor
  · rintro ⟨node, ⟨root, hroot, reaches⟩, hmem⟩
    have hnode := reaches.tidy (tidy.tidy count root hroot)
    have hcount : words.length + 1 = count := by
      have hleft := hnode.left_eq_one (List.ne_nil_of_mem hmem)
      omega
    refine ⟨hcount, ?_⟩
    rw [hcount, tidy.root_eq hroot, reaches.endAt_eq (tidy.tidy count root hroot)]
    exact (lookup_eq_some_iff_mem hnode.nodup_ends).mpr hmem
  · rintro ⟨rfl, hend⟩
    rcases tidy.root_mem_or_eq_empty (words.length + 1) with hroot | hempty
    · obtain ⟨node, reaches⟩ := Node.reaches_of_endAt hend
      have hnode := reaches.tidy (tidy.tidy _ _ hroot)
      rw [reaches.endAt_eq (tidy.tidy _ _ hroot)] at hend
      exact ⟨_, ⟨_, hroot, reaches⟩, (lookup_eq_some_iff_mem hnode.nodup_ends).mp hend⟩
    · rw [hempty, Node.endAt_empty] at hend
      cases hend

end SegmentTree.Tidy

namespace SegmentTree

/-- The tree of a table, as what it stores where. -/
structure Represents (tree : SegmentTree η) (routes : List (PathRoute η)) : Prop where
  /-- Each path route is stored in the slot of its template under its place in the table, which is
  its order, and nothing else is stored anywhere. -/
  holds_iff : ∀ index slot, tree.Holds index slot ↔
    ∃ r, routes[index]? = some r ∧ r.order = index ∧ r.pattern.slot = slot
  nodup_counts : (tree.roots.map Prod.fst).Nodup
  nodup_words : ∀ count words node, tree.Reaches count words node →
    node.children.words.Nodup ∧ (node.ends.map Prod.fst).Nodup
  sorted : ∀ count words node, tree.Reaches count words node →
    node.patternEnds.Pairwise (· < ·)
  depth : ∀ count words node, tree.Reaches count words node →
    node.depth = words.length ∧ node.depth < count
  depth_of_slot : ∀ r ∈ routes, ∀ count words node, tree.Reaches count words node →
    (r.pattern.slot = .patternEnds count words →
      node.depth = r.pattern.segments.findIdx Segment.isPattern) ∧
    ∀ last, r.pattern.slot = .ends count words last →
      node.depth + 1 = r.pattern.segments.length

variable {routes : List (PathRoute η)}

theorem holds_ofRoutes_iff (table : IsTable routes) (index : Nat) (slot : Slot) :
    (ofRoutes routes).Holds index slot ↔
      ∃ r, routes[index]? = some r ∧ r.order = index ∧ r.pattern.slot = slot := by
  have tidy := tidy_ofRoutes table
  have numbered (P : PathRoute η → Prop) : (∃ r, routes[index]? = some r ∧ P r) ↔
      ∃ r, routes[index]? = some r ∧ r.order = index ∧ P r := by
    constructor
    · rintro ⟨r, hr, h⟩
      exact ⟨r, hr, table.numbered index r hr, h⟩
    · rintro ⟨r, hr, -, h⟩
      exact ⟨r, hr, h⟩
  rw [← numbered]
  cases slot with
  | root =>
      change (ofRoutes routes).endAt [] = some index ↔ _
      rw [endAt_eq_some_iff table]
      simp only [Pattern.slot_eq_root_iff, List.map_eq_nil_iff]
      constructor
      · rintro ⟨r, hr, -, hnil⟩
        exact ⟨r, hr, hnil⟩
      · rintro ⟨r, hr, hnil⟩
        exact ⟨r, hr, by rw [hnil]; rfl, hnil⟩
  | ends count words last =>
      rw [tidy.holds_ends_iff, endAt_eq_some_iff table]
      simp only [Pattern.slot_eq_ends_iff]
      constructor
      · rintro ⟨rfl, r, hr, fixed, texts⟩
        refine ⟨r, hr, ?_, fixed, texts⟩
        simpa using congrArg List.length texts
      · rintro ⟨r, hr, rfl, fixed, texts⟩
        refine ⟨?_, r, hr, fixed, texts⟩
        simpa using (congrArg List.length texts).symm
  | patternEnds count words =>
      rw [tidy.holds_patternEnds_iff, mem_patternsAt_ofRoutes_iff]
      simp only [Pattern.slot_eq_patternEnds_iff]

theorem depth_of_reaches (table : IsTable routes) {count : Nat} {words : List (List Char)}
    {node : Node} (h : (ofRoutes routes).Reaches count words node) :
    node.depth = words.length ∧ node.depth < count := by
  obtain ⟨root, hroot, reaches⟩ := h
  have hplaced := reaches.placed ((tidy_ofRoutes table).placed count root hroot)
  obtain ⟨hdepth, hlt⟩ := hplaced.depth
  rw [Nat.zero_add] at hdepth hlt
  exact ⟨hdepth, hdepth ▸ hlt⟩

theorem represents_ofRoutes (table : IsTable routes) : (ofRoutes routes).Represents routes where
  holds_iff := holds_ofRoutes_iff table
  nodup_counts := (tidy_ofRoutes table).nodup_counts
  nodup_words := by
    rintro count words node ⟨root, hroot, reaches⟩
    have hnode := reaches.tidy ((tidy_ofRoutes table).tidy count root hroot)
    exact ⟨hnode.nodup_words, hnode.nodup_ends⟩
  sorted := by
    rintro count words node ⟨root, hroot, reaches⟩
    rw [← reaches.patternsAt_eq ((tidy_ofRoutes table).tidy count root hroot),
      ← (tidy_ofRoutes table).root_eq hroot]
    exact sorted_patternsAt_ofRoutes routes count words
  depth := fun _ _ _ reaches => depth_of_reaches table reaches
  depth_of_slot := by
    intro r _ count words node reaches
    rw [(depth_of_reaches table reaches).1]
    constructor
    · intro hslot
      rw [← (Pattern.slot_eq_patternEnds_iff.mp hslot).2.2, length_literalPrefix]
    · intro last hslot
      have texts := congrArg List.length (Pattern.slot_eq_ends_iff.mp hslot).2.2
      rw [List.length_map, List.length_append, List.length_singleton] at texts
      exact texts.symm

namespace Represents

variable {tree : SegmentTree η}

theorem lt_length (represents : tree.Represents routes) {index : Nat} (slot : Slot)
    (h : tree.Holds index slot) : index < routes.length := by
  obtain ⟨r, hr, -⟩ := (represents.holds_iff index slot).mp h
  exact (List.getElem?_eq_some_iff.mp hr).1

theorem inRange (represents : tree.Represents routes) {count : Nat} {words : List (List Char)}
    {node : Node} (reaches : tree.Reaches count words node) : node.InRange count routes.length where
  depth := (represents.depth count words node reaches).2
  ends := fun entry hmem =>
    represents.lt_length (.ends count words entry.1) ⟨node, reaches, hmem⟩
  patternEnds := fun _ hmem =>
    represents.lt_length (.patternEnds count words) ⟨node, reaches, hmem⟩

theorem search?_eq (represents : tree.Represents tree.routes) (m : Method) (path : String) :
    tree.search? m path = some (tree.search m path) := by
  rw [search?, search]
  cases Path.segments path.toList with
  | nil =>
      dsimp only
      cases hroot : tree.rootRoute with
      | none => rfl
      | some index => exact Search.attemptAt?_eq (represents.lt_length .root hroot) {}
  | cons word words =>
      dsimp only
      cases hlookup : tree.roots.lookup (word :: words).length with
      | none => rfl
      | some root =>
          have hroot := (lookup_eq_some_iff_mem represents.nodup_counts).mp hlookup
          exact Node.search?_eq root
            (fun words found reaches => represents.inRange ⟨root, hroot, reaches⟩) {}

end Represents

theorem not_holds_of_isSingle {front back : List (PathRoute η)} {r : PathRoute η}
    (table : IsTable (front ++ r :: back)) (single : r.pattern.slot.isSingle = true)
    (index : Nat) : ¬(ofRoutes front).Holds index r.pattern.slot := by
  intro h
  obtain ⟨r', hr', -, hslot⟩ := (holds_ofRoutes_iff table.of_append index _).mp h
  apply table.segments_ne (List.mem_of_getElem? hr')
  cases hr : r.pattern.slot with
  | root => rw [Pattern.slot_eq_root_iff.mp hr, Pattern.slot_eq_root_iff.mp (hslot.trans hr)]
  | ends count words last =>
      apply Pattern.segments_eq_of_map_text_eq
      rw [(Pattern.slot_eq_ends_iff.mp hr).2.2, (Pattern.slot_eq_ends_iff.mp (hslot.trans hr)).2.2]
  | patternEnds count words =>
      rw [hr] at single
      cases single

/-- Inserting a path route stores its place in its slot and leaves the rest as it is. -/
theorem holds_append_singleton_iff {front back : List (PathRoute η)} {r : PathRoute η}
    (table : IsTable (front ++ r :: back)) (index : Nat) (slot : Slot) :
    (ofRoutes (front ++ [r])).Holds index slot ↔
      (ofRoutes front).Holds index slot ∨ index = front.length ∧ r.pattern.slot = slot := by
  have split : front ++ r :: back = (front ++ [r]) ++ back := by simp
  rw [holds_ofRoutes_iff table.of_append, holds_ofRoutes_iff (split ▸ table).of_append]
  constructor
  · rintro ⟨r', hr', horder, hslot⟩
    rcases Nat.lt_or_ge index front.length with hlt | hge
    · rw [List.getElem?_append_left hlt] at hr'
      exact .inl ⟨r', hr', horder, hslot⟩
    · have hlast := (List.getElem?_eq_some_iff.mp hr').1
      rw [List.length_append, List.length_singleton] at hlast
      have hindex : index = front.length := by omega
      rw [hindex, List.getElem?_concat_length] at hr'
      cases hr'
      exact .inr ⟨hindex, hslot⟩
  · rintro (⟨r', hr', h⟩ | ⟨rfl, hslot⟩)
    · refine ⟨r', ?_, h⟩
      rw [List.getElem?_append_left (List.getElem?_eq_some_iff.mp hr').1, hr']
    · refine ⟨r, List.getElem?_concat_length, ?_, hslot⟩
      exact table.numbered front.length r (by simp)

end SegmentTree

/-- The tree of a table that is built stores each path route once, in the slot of its template. Each
insertion takes a free slot, or joins others at a node, and moves nothing. No search asks for a
segment or for a path route that does not exist. -/
theorem represents_table (config : Config) (registrations : List (Registration η)) :
    let table := (Builder.registerEach { config := config } registrations).table
    (SegmentTree.ofRoutes table).Represents table ∧
    (∀ front r back, table = front ++ r :: back →
      (r.pattern.slot.isSingle = true →
        ∀ index, ¬(SegmentTree.ofRoutes front).Holds index r.pattern.slot) ∧
      ∀ index slot, (SegmentTree.ofRoutes (front ++ [r])).Holds index slot ↔
        (SegmentTree.ofRoutes front).Holds index slot ∨
          index = front.length ∧ r.pattern.slot = slot) ∧
    ∀ m path, (SegmentTree.ofRoutes table).search? m path =
      some ((SegmentTree.ofRoutes table).search m path) := by
  intro table
  have isTable : IsTable table := Builder.isTable_table config registrations
  have represents := SegmentTree.represents_ofRoutes isTable
  refine ⟨represents, ?_, ?_⟩
  · intro front r back heq
    rw [heq] at isTable
    exact ⟨fun single index => SegmentTree.not_holds_of_isSingle isTable single index,
      fun index slot => SegmentTree.holds_append_singleton_iff isTable index slot⟩
  · intro m path
    apply SegmentTree.Represents.search?_eq
    rw [SegmentTree.routes_ofRoutes]
    exact represents

end HttpRouting
