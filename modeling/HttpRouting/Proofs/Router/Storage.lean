import HttpRouting.Proofs.Router.Answer

/-!
# The nodes of a tree

A node is reached from the root through the words of its children. In the tree of a table no word
has two children or two ends, so what is stored at a node is what is observed under the words that
lead to it. No insertion takes an end that another route has, since the segments of the routes are
distinct.
-/

namespace HttpRouting

variable {η : Type}

section Lookup

variable {α β : Type} [BEq α] [LawfulBEq α] {l : List (α × β)} {a : α} {b : β}

theorem mem_of_lookup_eq_some (h : l.lookup a = some b) : (a, b) ∈ l := by
  obtain ⟨front, back, rfl, -⟩ := List.lookup_eq_some_iff.mp h
  simp

theorem lookup_eq_some_iff_mem (nodup : (l.map Prod.fst).Nodup) :
    l.lookup a = some b ↔ (a, b) ∈ l := by
  refine ⟨mem_of_lookup_eq_some, fun h => ?_⟩
  obtain ⟨front, back, rfl⟩ := List.append_of_mem h
  rw [List.map_append, List.map_cons, List.nodup_append] at nodup
  refine List.lookup_eq_some_iff.mpr ⟨front, back, rfl, fun entry hentry => ?_⟩
  have ne := nodup.2.2 entry.1 (List.mem_map_of_mem hentry) a List.mem_cons_self
  simpa using ne.symm

end Lookup

namespace Node

def depth : Node → Nat
  | .mk depth _ _ _ => depth

def children : Node → Children
  | .mk _ children _ _ => children

def ends : Node → List (List Char × Nat)
  | .mk _ _ ends _ => ends

def patternEnds : Node → List Nat
  | .mk _ _ _ patternEnds => patternEnds

end Node

namespace Children

def words : Children → List (List Char)
  | .nil => []
  | .cons word _ rest => word :: rest.words

def Has (word : List Char) (child : Node) : Children → Prop
  | .nil => False
  | .cons key first rest => key = word ∧ first = child ∨ rest.Has word child

theorem has_of_find? {word : List Char} {child : Node} :
    (children : Children) → children.find? word = some child → children.Has word child
  | .nil, h => by simp [find?] at h
  | .cons key first rest, h => by
      rw [find?] at h
      split at h
      · next hkey => exact .inl ⟨hkey, Option.some.inj h⟩
      · exact .inr (has_of_find? rest h)

theorem mem_words_of_has {word : List Char} {child : Node} :
    (children : Children) → children.Has word child → word ∈ children.words
  | .nil, h => h.elim
  | .cons _ _ rest, h => by
      rcases h with ⟨rfl, -⟩ | h
      · exact List.mem_cons_self
      · exact List.mem_cons_of_mem _ (mem_words_of_has rest h)

theorem find?_of_has {word : List Char} {child : Node} :
    (children : Children) → children.words.Nodup → children.Has word child →
      children.find? word = some child
  | .nil, _, h => h.elim
  | .cons key first rest, nodup, h => by
      rw [words, List.nodup_cons] at nodup
      rw [find?]
      rcases h with ⟨hkey, rfl⟩ | h
      · rw [if_pos hkey]
      · have ne : key ≠ word := by
          rintro rfl
          exact nodup.1 (mem_words_of_has rest h)
        rw [if_neg ne, find?_of_has rest nodup.2 h]

theorem mem_words_alter {w word : List Char} {depth : Nat} {change : Node → Node} :
    (children : Children) → w ∈ (children.alter word depth change).words →
      w = word ∨ w ∈ children.words
  | .nil, h => .inl (List.mem_singleton.mp h)
  | .cons key first rest, h => by
      rw [alter] at h
      split at h
      · exact .inr h
      · rcases List.mem_cons.mp h with rfl | h
        · exact .inr List.mem_cons_self
        · exact (mem_words_alter rest h).imp id (List.mem_cons_of_mem _)

theorem nodup_words_alter {word : List Char} {depth : Nat} {change : Node → Node} :
    (children : Children) → children.words.Nodup →
      (children.alter word depth change).words.Nodup
  | .nil, _ => List.nodup_singleton word
  | .cons key first rest, nodup => by
      rw [alter]
      split
      · exact nodup
      · next hkey =>
        rw [words, List.nodup_cons] at nodup ⊢
        refine ⟨fun h => ?_, nodup_words_alter rest nodup.2⟩
        rcases mem_words_alter rest h with h | h
        · exact hkey h
        · exact nodup.1 h

end Children

mutual

/-- Below a node with a number of segments to go, no word has two children or two ends, and routes
end only where one segment is left. -/
def Node.Tidy : Nat → Node → Prop
  | left, .mk _ children ends _ =>
      (ends ≠ [] → left = 1) ∧ (ends.map Prod.fst).Nodup ∧ children.words.Nodup ∧
        children.Tidy (left - 1)

def Children.Tidy : Nat → Children → Prop
  | _, .nil => True
  | left, .cons _ child rest => child.Tidy left ∧ rest.Tidy left

end

namespace Node.Tidy

variable {left : Nat} {node : Node}

theorem left_eq_one (tidy : node.Tidy left) (h : node.ends ≠ []) : left = 1 := by
  cases node
  exact tidy.1 h

theorem nodup_ends (tidy : node.Tidy left) : (node.ends.map Prod.fst).Nodup := by
  cases node
  exact tidy.2.1

theorem nodup_words (tidy : node.Tidy left) : node.children.words.Nodup := by
  cases node
  exact tidy.2.2.1

theorem children (tidy : node.Tidy left) : node.children.Tidy (left - 1) := by
  cases node
  exact tidy.2.2.2

end Node.Tidy

theorem Node.Placed.depth {count d : Nat} {node : Node} (placed : node.Placed count d) :
    node.depth = d ∧ d < count := by
  cases node
  exact ⟨placed.1, placed.2.1⟩

theorem Node.tidy_empty (left depth : Nat) : (empty depth).Tidy left :=
  ⟨fun h => absurd rfl h, List.nodup_nil, List.nodup_nil, trivial⟩

namespace Children

variable {left : Nat} {word : List Char}

theorem tidy_of_has {child : Node} :
    (children : Children) → children.Tidy left → children.Has word child → child.Tidy left
  | .nil, _, h => h.elim
  | .cons _ _ rest, tidy, h => by
      rcases h with ⟨-, rfl⟩ | h
      · exact tidy.1
      · exact tidy_of_has rest tidy.2 h

theorem placed_of_has {count d : Nat} {child : Node} :
    (children : Children) → children.Placed count d → children.Has word child →
      child.Placed count d
  | .nil, _, h => h.elim
  | .cons _ _ rest, placed, h => by
      rcases h with ⟨-, rfl⟩ | h
      · exact placed.1
      · exact placed_of_has rest placed.2 h

theorem tidy_getD_find? (depth : Nat) {children : Children} (tidy : children.Tidy left) :
    ((children.find? word).getD (Node.empty depth)).Tidy left := by
  cases hfind : children.find? word with
  | none => exact Node.tidy_empty left depth
  | some child => exact tidy_of_has children tidy (has_of_find? children hfind)

theorem tidy_alter {depth : Nat} {change : Node → Node} :
    (children : Children) → children.Tidy left →
      (change ((children.find? word).getD (Node.empty depth))).Tidy left →
      (children.alter word depth change).Tidy left
  | .nil, _, changed => ⟨changed, trivial⟩
  | .cons key first rest, tidy, changed => by
      rw [find?] at changed
      rw [alter]
      split
      · next hkey =>
        rw [if_pos hkey] at changed
        exact ⟨changed, tidy.2⟩
      · next hkey =>
        rw [if_neg hkey] at changed
        exact ⟨tidy.1, tidy_alter rest tidy.2 changed⟩

end Children

theorem Node.tidy_insert (index : Nat) {segments : List Segment} {node : Node}
    (tidy : node.Tidy segments.length)
    (free : isFixed segments = true → node.endAt (segments.map Segment.text) = none) :
    (insert index segments node).Tidy segments.length := by
  induction segments generalizing node with
  | nil => exact tidy
  | cons segment rest ih =>
      obtain ⟨depth, children, ends, patternEnds⟩ := node
      obtain ⟨hends, nodupEnds, nodupWords, hchildren⟩ := tidy
      rw [insert]
      by_cases hpattern : segment.isPattern = true
      · rw [if_pos hpattern]
        exact ⟨hends, nodupEnds, nodupWords, hchildren⟩
      · rw [if_neg hpattern]
        cases rest with
        | nil =>
            rw [if_pos List.isEmpty_nil]
            have hfree : ends.lookup segment.text = none := free (by simp [isFixed, hpattern])
            refine ⟨fun _ => rfl, ?_, nodupWords, hchildren⟩
            rw [List.map_cons, List.nodup_cons]
            refine ⟨fun hmem => ?_, nodupEnds⟩
            obtain ⟨entry, hentry, heq⟩ := List.mem_map.mp hmem
            have hne := List.lookup_eq_none_iff.mp hfree entry hentry
            simp [heq] at hne
        | cons second rest =>
            rw [if_neg (by simp)]
            refine ⟨fun h => ?_, nodupEnds, Children.nodup_words_alter children nodupWords, ?_⟩
            · have hleft := hends h
              simp at hleft
            · apply Children.tidy_alter children hchildren
              apply ih (Children.tidy_getD_find? _ hchildren)
              intro fixed
              have hfree := free (by simpa [isFixed, hpattern] using fixed)
              rw [List.map_cons, List.map_cons, Node.endAt_cons _ _ _ _ (depth + 1)] at hfree
              exact hfree

/-- A node below another one, with the words of the children through which it is reached. -/
inductive Node.Reaches : Node → List (List Char) → Node → Prop
  | here (node : Node) : Reaches node [] node
  | child {node child found : Node} {word : List Char} {words : List (List Char)}
      (has : node.children.Has word child) (reaches : Reaches child words found) :
      Reaches node (word :: words) found

namespace Node.Reaches

variable {node found : Node} {words : List (List Char)}

theorem placed {count d : Nat} (reaches : node.Reaches words found) (h : node.Placed count d) :
    found.Placed count (d + words.length) := by
  induction reaches generalizing d with
  | here node => exact h
  | @child node child found word words has _ ih =>
      obtain ⟨depth, children, ends, patternEnds⟩ := node
      have hchild := Children.placed_of_has children h.2.2 has
      have hfound := ih hchild
      rw [Nat.add_assoc, Nat.add_comm 1] at hfound
      exact hfound

theorem tidy {left : Nat} (reaches : node.Reaches words found) (h : node.Tidy left) :
    found.Tidy (left - words.length) := by
  induction reaches generalizing left with
  | here node => exact h
  | @child node child found word words has _ ih =>
      have hfound := ih (Children.tidy_of_has _ h.children has)
      rw [Nat.sub_sub, Nat.add_comm] at hfound
      exact hfound

theorem patternsAt_eq {left : Nat} (reaches : node.Reaches words found) (h : node.Tidy left) :
    node.patternsAt words = found.patternEnds := by
  induction reaches generalizing left with
  | here node => cases node; rfl
  | @child node child found word words has _ ih =>
      have hchild := Children.tidy_of_has _ h.children has
      obtain ⟨depth, children, ends, patternEnds⟩ := node
      have hfind : children.find? word = some child :=
        Children.find?_of_has children h.nodup_words has
      rw [Node.patternsAt, hfind]
      exact ih hchild

theorem endAt_eq {left : Nat} (reaches : node.Reaches words found) (h : node.Tidy left)
    (last : List Char) : node.endAt (words ++ [last]) = found.ends.lookup last := by
  induction reaches generalizing left with
  | here node => cases node; rfl
  | @child node child found word words has _ ih =>
      have hchild := Children.tidy_of_has _ h.children has
      obtain ⟨depth, children, ends, patternEnds⟩ := node
      have hfind : children.find? word = some child :=
        Children.find?_of_has children h.nodup_words has
      have htail : words ++ [last] ≠ [] := by simp
      obtain ⟨next, rest, heq⟩ := List.exists_cons_of_ne_nil htail
      rw [List.cons_append, heq, Node.endAt, hfind, ← heq]
      exact ih hchild

end Node.Reaches

namespace Node

theorem reaches_of_mem_patternsAt {index : Nat} {words : List (List Char)} {node : Node}
    (h : index ∈ node.patternsAt words) : ∃ found, node.Reaches words found := by
  induction words generalizing node with
  | nil => exact ⟨node, .here node⟩
  | cons word words ih =>
      obtain ⟨depth, children, ends, patternEnds⟩ := node
      rw [patternsAt] at h
      cases hfind : children.find? word with
      | none => simp [hfind] at h
      | some child =>
          rw [hfind] at h
          obtain ⟨found, reaches⟩ := ih h
          exact ⟨found, .child (Children.has_of_find? children hfind) reaches⟩

theorem reaches_of_endAt {index : Nat} {last : List Char} {words : List (List Char)} {node : Node}
    (h : node.endAt (words ++ [last]) = some index) : ∃ found, node.Reaches words found := by
  induction words generalizing node with
  | nil => exact ⟨node, .here node⟩
  | cons word words ih =>
      obtain ⟨depth, children, ends, patternEnds⟩ := node
      have htail : words ++ [last] ≠ [] := by simp
      obtain ⟨next, rest, heq⟩ := List.exists_cons_of_ne_nil htail
      rw [List.cons_append, heq, endAt, ← heq] at h
      cases hfind : children.find? word with
      | none => simp [hfind] at h
      | some child =>
          rw [hfind] at h
          obtain ⟨found, reaches⟩ := ih h
          exact ⟨found, .child (Children.has_of_find? children hfind) reaches⟩

end Node

end HttpRouting
