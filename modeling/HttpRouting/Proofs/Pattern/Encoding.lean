import HttpRouting.Proofs.Pattern.Meaning

/-!
# Expression texts read back

The text of an expression is read under the syntax of expressions: operators mean what the syntax
says and every other character, or one behind a backslash, stands for itself. It can be read in one
way only. For a template the runs between slashes are its segments without the names of the
variables, so the text tells the template up to the slashes and these names.
-/

namespace HttpRouting

namespace Regex

def operators : List Char :=
  ['\\', '.', '+', '*', '?', '(', ')', '|', '[', '\x7b', '^', '$']

theorem operators_subset : operators ⊆ metacharacters := by
  simp [operators, metacharacters]

/-- A text between the anchors of an expression, and the parts that it is read as. -/
inductive Reads : List Char → List Part → Prop where
  | nil : Reads [] []
  | plain {c : Char} (own : c ∉ operators) {text : List Char} {parts : List Part} :
      Reads text parts → Reads (c :: text) (.char c :: parts)
  | escaped (c : Char) {text : List Char} {parts : List Part} :
      Reads text parts → Reads ('\\' :: c :: text) (.char c :: parts)
  | slashes {text : List Char} {parts : List Part} :
      Reads text parts → Reads ('/' :: '*' :: text) (.slashes :: parts)
  | separator {text : List Char} {parts : List Part} :
      Reads text parts → Reads ('/' :: '+' :: text) (.separator :: parts)
  | capture {text : List Char} {parts : List Part} :
      Reads text parts →
        Reads ('(' :: '[' :: '^' :: '/' :: ']' :: '+' :: ')' :: text) (.variable :: parts)
  | beneath {text : List Char} {parts : List Part} :
      Reads text parts →
        Reads ('(' :: '/' :: '+' :: '.' :: '*' :: ')' :: '?' :: text) (.below :: parts)

theorem not_reads_star (text : List Char) (parts : List Part) : ¬ Reads ('*' :: text) parts := by
  intro h
  cases h with
  | plain own h => exact own (by decide)

theorem not_reads_plus (text : List Char) (parts : List Part) : ¬ Reads ('+' :: text) parts := by
  intro h
  cases h with
  | plain own h => exact own (by decide)

/-- At each place of a text one rule applies at most. -/
theorem Reads.unique {text : List Char} {parts other : List Part} (h : Reads text parts)
    (h' : Reads text other) : parts = other := by
  induction h generalizing other with
  | nil =>
      cases h'
      rfl
  | plain own h ih =>
      cases h' with
      | plain _ h' => rw [ih h']
      | escaped c h' => exact absurd (by decide) own
      -- a slash may stand for itself, but then the repetition behind it is not read
      | slashes h' => exact absurd h (not_reads_star _ _)
      | separator h' => exact absurd h (not_reads_plus _ _)
      | capture h' => exact absurd (by decide) own
      | beneath h' => exact absurd (by decide) own
  | escaped c h ih =>
      cases h' with
      | plain own h' => exact absurd (by decide) own
      | escaped _ h' => rw [ih h']
  | slashes h ih =>
      cases h' with
      | plain own h' => exact absurd h' (not_reads_star _ _)
      | slashes h' => rw [ih h']
  | separator h ih =>
      cases h' with
      | plain own h' => exact absurd h' (not_reads_plus _ _)
      | separator h' => rw [ih h']
  | capture h ih =>
      cases h' with
      | plain own h' => exact absurd (by decide) own
      | capture h' => rw [ih h']
  | beneath h ih =>
      cases h' with
      | plain own h' => exact absurd (by decide) own
      | beneath h' => rw [ih h']

theorem reads_text (parts : List Part) : Reads (parts.flatMap Part.text) parts := by
  induction parts with
  | nil => exact .nil
  | cons part parts ih =>
      rw [List.flatMap_cons]
      cases part with
      | char c =>
          rw [Part.text]
          split
          · exact .escaped c ih
          · next unmarked => exact .plain (fun mem => unmarked (operators_subset mem)) ih
      | slashes => exact .slashes ih
      | separator => exact .separator ih
      | «variable» => exact .capture ih
      | below => exact .beneath ih

/-- The text of an expression, with its anchors, and the parts that it is read as. -/
def IsTextOf (text : String) (parts : List Part) : Prop :=
  ∃ body, text.toList = '^' :: (body ++ ['$']) ∧ Reads body parts

/-- The text of an expression is read as its parts and in no other way. -/
theorem isTextOf_text_iff {r : Regex} {parts : List Part} :
    IsTextOf r.text parts ↔ parts = r.parts := by
  have own : r.text.toList = '^' :: (r.parts.flatMap Part.text ++ ['$']) := by
    rw [text, String.toList_ofList, List.cons_append]
  constructor
  · rintro ⟨body, anchored, read⟩
    rw [own, List.cons.injEq, List.append_cancel_right_eq] at anchored
    rw [← anchored.2] at read
    exact read.unique (reads_text _)
  · rintro rfl
    exact ⟨_, own, reads_text _⟩

theorem eq_of_text_eq {r r' : Regex} (h : r.text = r'.text) : r = r' := by
  have read : IsTextOf r'.text r.parts := h ▸ isTextOf_text_iff.mpr rfl
  obtain ⟨parts⟩ := r
  obtain rfl : parts = r'.parts := isTextOf_text_iff.mp read
  rfl

/-- The groups that a text opens: its opening parentheses that no backslash stands before. -/
def openings : List Char → Nat
  | '\\' :: _ :: text => openings text
  | '(' :: text => openings text + 1
  | _ :: text => openings text
  | [] => 0

theorem openings_cons {c : Char} (noMark : c ≠ '\\') (noOpening : c ≠ '(') (text : List Char) :
    openings (c :: text) = openings text := by
  simp [openings, noMark]

theorem Reads.openings_append {text : List Char} {parts : List Part} (h : Reads text parts)
    (rest : List Char) :
    openings (text ++ rest) = parts.count .variable + parts.count .below + openings rest := by
  induction h with
  | nil => simp
  | @plain c own text parts h ih =>
      have noMark : c ≠ '\\' := fun eq => own (by simp [eq, operators])
      have noOpening : c ≠ '(' := fun eq => own (by simp [eq, operators])
      rw [List.cons_append, openings_cons noMark noOpening, ih, List.count_cons_of_ne (by simp),
        List.count_cons_of_ne (by simp)]
  | escaped c h ih => simpa [openings] using ih
  | slashes h ih => simpa [openings] using ih
  | separator h ih => simpa [openings] using ih
  | @capture text parts h ih =>
      have group : openings ('(' :: '[' :: '^' :: '/' :: ']' :: '+' :: ')' :: text ++ rest) =
          openings (text ++ rest) + 1 := by simp [openings]
      rw [group, ih, List.count_cons_self, List.count_cons_of_ne (by simp)]
      omega
  | @beneath text parts h ih =>
      have group : openings ('(' :: '/' :: '+' :: '.' :: '*' :: ')' :: '?' :: text ++ rest) =
          openings (text ++ rest) + 1 := by simp [openings]
      rw [group, ih, List.count_cons_self, List.count_cons_of_ne (by simp)]
      omega

theorem openings_text (r : Regex) :
    openings r.text.toList = r.parts.count .variable + r.parts.count .below := by
  obtain ⟨body, anchored, read⟩ := isTextOf_text_iff.mpr (Eq.refl r.parts)
  rw [anchored, openings_cons (by decide) (by decide), read.openings_append]
  rfl

def Part.char? : Part → Option Char
  | .char c => some c
  | _ => none

/-- A part at which a segment ends: it stands for slashes, or for nothing or a text after them. -/
def Part.isSeparator : Part → Bool
  | .slashes | .separator | .below => true
  | .char _ | .variable => false

/-- What stands between separators: runs of characters, with `none` for each variable. -/
def runs (parts : List Part) : List (List (Option Char)) :=
  ((parts.splitOnP Part.isSeparator).filter fun run => !run.isEmpty).map (List.map Part.char?)

@[simp] theorem runs_nil : runs [] = [] := rfl

theorem runs_append_separator {sep : Part} (hsep : sep.isSeparator = true)
    (before after : List Part) : runs (before ++ sep :: after) = runs before ++ runs after := by
  rw [runs, List.splitOnP_append_cons _ _ hsep, List.filter_append, List.map_append]
  rfl

theorem runs_separator_cons {sep : Part} (hsep : sep.isSeparator = true) (after : List Part) :
    runs (sep :: after) = runs after := runs_append_separator hsep [] after

theorem runs_append {later : List Part} (h : ∀ part ∈ later.head?, part.isSeparator = true)
    (before : List Part) : runs (before ++ later) = runs before ++ runs later := by
  cases later with
  | nil => simp
  | cons sep later =>
      have hsep := h sep rfl
      rw [runs_append_separator hsep, runs_separator_cons hsep]

end Regex

def Piece.char? : Piece → Option Char
  | .char c => some c
  | .variable _ => none

namespace Segment

def nameless (s : Segment) : List (Option Char) := s.map Piece.char?

theorem map_char?_map_partOf (s : Segment) :
    (s.map Pattern.partOf).map Regex.Part.char? = s.nameless := by
  rw [List.map_map, nameless]
  congr 1
  funext piece
  cases piece <;> rfl

theorem map_partOf_eq (s : Segment) :
    s.map Pattern.partOf = s.nameless.map fun c => c.elim .variable .char := by
  rw [nameless, List.map_map]
  congr 1
  funext piece
  cases piece <;> rfl

end Segment

namespace Pattern

open Regex

/-- The segments of a template without the names of its variables. -/
def nameless (p : Pattern) : List (List (Option Char)) := p.segments.map Segment.nameless

theorem runs_pieces {s : Segment} (ne : s ≠ []) : runs (s.map partOf) = [s.nameless] := by
  have whole : (s.map partOf).splitOnP Part.isSeparator = [s.map partOf] := by
    apply List.splitOnP_eq_singleton
    intro part mem
    obtain ⟨piece, -, rfl⟩ := List.mem_map.mp mem
    cases piece <;> rfl
  rw [runs, whole, ← s.map_char?_map_partOf]
  simp [ne]

theorem runs_cons_pieces {sep : Part} (hsep : sep.isSeparator = true) {s : Segment} (ne : s ≠ [])
    {later : List Part} (h : ∀ part ∈ later.head?, part.isSeparator = true) :
    runs (sep :: (s.map partOf ++ later)) = s.nameless :: runs later := by
  rw [runs_separator_cons hsep, runs_append h, runs_pieces ne, List.singleton_append]

theorem isSeparator_head?_flatMap (rest : List Segment) :
    ∀ part ∈ (rest.flatMap fun s => .separator :: s.map partOf).head?,
      Part.isSeparator part = true := by
  cases rest with
  | nil => simp
  | cons s rest => simp [Part.isSeparator]

theorem runs_flatMap {rest : List Segment} (ne : ∀ s ∈ rest, s ≠ []) :
    runs (rest.flatMap fun s => .separator :: s.map partOf) = rest.map Segment.nameless := by
  induction rest with
  | nil => rfl
  | cons s rest ih =>
      rw [List.forall_mem_cons] at ne
      rw [List.flatMap_cons, List.cons_append,
        runs_cons_pieces rfl ne.1 (isSeparator_head?_flatMap rest), ih ne.2, List.map_cons]

theorem runs_partsOf {segments : List Segment} (ne : ∀ s ∈ segments, s ≠ []) :
    runs (partsOf segments) = segments.map Segment.nameless := by
  cases segments with
  | nil => rfl
  | cons first rest =>
      rw [List.forall_mem_cons] at ne
      rw [partsOf, List.cons_append,
        runs_cons_pieces rfl ne.1 (isSeparator_head?_flatMap rest), runs_flatMap ne.2, List.map_cons]

theorem runs_partsOf_append {segments : List Segment} (ne : ∀ s ∈ segments, s ≠ []) {sep : Part}
    (hsep : sep.isSeparator = true) :
    runs (partsOf segments ++ [sep]) = segments.map Segment.nameless := by
  have last : runs [sep] = [] := runs_separator_cons hsep []
  rw [runs_append (by simp [hsep]), last, List.append_nil, runs_partsOf ne]

theorem runs_regex (p : Pattern) : runs p.regex.parts = p.nameless :=
  runs_partsOf_append (fun _ h => (isWritable_of_mem h).1) rfl

theorem partsOf_eq_of_map_nameless_eq {segments other : List Segment}
    (h : segments.map Segment.nameless = other.map Segment.nameless) :
    partsOf segments = partsOf other := by
  have later (rest : List Segment) : (rest.flatMap fun s => Part.separator :: s.map partOf) =
      (rest.map Segment.nameless).flatMap fun s =>
        .separator :: s.map fun c => c.elim .variable .char := by
    simp [List.flatMap_map, Segment.map_partOf_eq]
  cases segments with
  | nil => rw [List.map_eq_nil_iff.mp h.symm]
  | cons s segments =>
      cases other with
      | nil => simp at h
      | cons t other =>
          rw [List.map_cons, List.map_cons, List.cons.injEq] at h
          rw [partsOf, partsOf, later, later, s.map_partOf_eq, t.map_partOf_eq, h.1, h.2]

theorem below_not_mem_partsOf (segments : List Segment) : .below ∉ partsOf segments := by
  have piece (piece : Piece) : partOf piece ≠ .below := by cases piece <;> simp [partOf]
  cases segments with
  | nil => simp [partsOf]
  | cons s segments => simp [partsOf, piece]

theorem below_not_mem_regex (p : Pattern) : .below ∉ p.regex.parts := by
  simp [regex, below_not_mem_partsOf]

theorem regex_eq_of_nameless_eq {p q : Pattern} (h : p.nameless = q.nameless) :
    p.regex = q.regex := by
  rw [regex, regex, partsOf_eq_of_map_nameless_eq h]

theorem text_eq_iff {p q : Pattern} : p.regex.text = q.regex.text ↔ p.nameless = q.nameless := by
  constructor
  · intro h
    rw [← p.runs_regex, ← q.runs_regex, Regex.eq_of_text_eq h]
  · intro h
    rw [regex_eq_of_nameless_eq h]

theorem count_variable_eq_length_names (p : Pattern) :
    p.regex.parts.count .variable = p.names.length := by
  rw [count_variable_regex, names_eq_map_rawNames, List.length_map]

theorem openings_text (p : Pattern) : openings p.regex.text.toList = p.names.length := by
  rw [Regex.openings_text, count_variable_eq_length_names,
    List.count_eq_zero.mpr p.below_not_mem_regex, Nat.add_zero]

def values (p : Pattern) (path : String) : Option (List String) :=
  (p.captures path).map fun bindings => bindings.pairs.map Prod.snd

theorem values_eq (p : Pattern) (path : String) :
    p.values path = (p.regex.captures path.toList).map (List.map String.ofList) := by
  rw [values, captures, Option.map_map]
  apply Option.map_congr
  intro captured h
  obtain ⟨value, rfl, -⟩ := greatest_fills_of_captures h
  rw [Function.comp_apply, Variables.pairs_ofPairs, List.map_snd_zip]
  simp [names_eq_map_rawNames]

end Pattern

/-- The text of the expression of a template is read in one way only. What stands between the
slashes are the segments of the template without the names of its variables, and the text opens one
group for each name. Two templates have the same text exactly if their segments are the same without
these names, and then they match the same paths and bind the same values from left to right. -/
theorem expression_text_reads_back {template : String} {p : Pattern}
    (h : Pattern.compile template = .ok p) :
    p.segments.map Segment.text = Path.segments template.toList ∧
    (∃ parts, (∀ other, Regex.IsTextOf p.regex.text other ↔ other = parts) ∧
      Regex.runs parts = p.nameless ∧ parts.count .variable = p.names.length) ∧
    Regex.openings p.regex.text.toList = p.names.length ∧
    ∀ (template' : String) (q : Pattern), Pattern.compile template' = .ok q →
      (p.regex.text = q.regex.text ↔ p.nameless = q.nameless) ∧
      (p.regex.text = q.regex.text →
        ∀ path, p.isMatch path = q.isMatch path ∧ p.values path = q.values path) := by
  refine ⟨?_, ?_, p.openings_text, ?_⟩
  · rw [← Pattern.compile_eq_ok_iff.mp h]
    exact p.map_text_segments
  · exact ⟨_, fun _ => Regex.isTextOf_text_iff, p.runs_regex, p.count_variable_eq_length_names⟩
  · intro _ q _
    refine ⟨Pattern.text_eq_iff, ?_⟩
    intro same path
    have regex := Pattern.regex_eq_of_nameless_eq (Pattern.text_eq_iff.mp same)
    rw [p.values_eq, q.values_eq, Pattern.isMatch, Pattern.isMatch, regex]
    exact ⟨rfl, rfl⟩

/-- The parentheses and the plus of a template open no group and repeat nothing in its text. -/
theorem expression_text_reads_back_of_marks : ∃ p q : Pattern,
    Pattern.compile "/a.b/({id})+" = .ok p ∧
    Pattern.compile "a.b//({name})+/" = .ok q ∧
    p.regex.text = "^/*a\\.b/+\\(([^/]+)\\)\\+/*$" ∧
    Regex.openings p.regex.text.toList = 1 ∧
    p.nameless = [[some 'a', some '.', some 'b'], [some '(', none, some ')', some '+']] ∧
    p.regex.text = q.regex.text ∧
    p.values "/a.b/((7)+" = some ["(7"] ∧ q.values "/a.b/((7)+" = some ["(7"] := by
  let p : Pattern := ⟨"/a.b/({id})+", [[.char 'a', .char '.', .char 'b'],
    [.char '(', .variable ['i', 'd'], .char ')', .char '+']], rfl⟩
  let q : Pattern := ⟨"a.b//({name})+/", [[.char 'a', .char '.', .char 'b'],
    [.char '(', .variable ['n', 'a', 'm', 'e'], .char ')', .char '+']], rfl⟩
  obtain ⟨-, -, groups, others⟩ := expression_text_reads_back p.compile_template
  obtain ⟨texts, answers⟩ := others _ q q.compile_template
  have same : p.regex.text = q.regex.text := texts.mpr rfl
  have text : p.regex.text = "^/*a\\.b/+\\(([^/]+)\\)\\+/*$" := by decide
  have hpath : "/a.b/((7)+".toList = ['/', 'a', '.', 'b', '/', '(', '(', '7', ')', '+'] := by simp
  have bound : p.values "/a.b/((7)+" = some ["(7"] := by
    rw [p.values_eq, hpath]
    rfl
  exact ⟨p, q, p.compile_template, q.compile_template, text, groups, rfl, same, bound,
    (answers same _).2.symm.trans bound⟩

end HttpRouting
