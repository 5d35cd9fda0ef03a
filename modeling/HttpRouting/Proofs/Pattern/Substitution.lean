import HttpRouting.Proofs.Path
import HttpRouting.Proofs.Pattern.Matching
import HttpRouting.Proofs.Pattern.Reading

/-!
# Values for the variables of a template

A template stands for the paths whose segments are its segments with a value in the place of each
name. The expression of a template matches exactly these paths, and captures the values from left to
right.
-/

namespace HttpRouting

def IsValue (value : List Char) : Prop := value ≠ [] ∧ '/' ∉ value

namespace Segment

theorem isValue_fill {value : List Char → List Char} {s : Segment} (writable : s.IsWritable)
    (h : ∀ name ∈ s.names, IsValue (value name)) : IsValue (fill value s) := by
  have pieces : ∀ p ∈ s, IsValue (p.fill value) := by
    intro p hp
    cases p with
    | char c =>
        refine ⟨List.cons_ne_nil c [], ?_⟩
        intro hmem
        rw [Piece.fill, List.mem_singleton] at hmem
        exact writable.2 (hmem ▸ hp)
    | «variable» name => exact h name (List.mem_filterMap.mpr ⟨_, hp, rfl⟩)
  constructor
  · cases s with
    | nil => exact absurd rfl writable.1
    | cons p s =>
        intro hnil
        rw [fill_cons, List.append_eq_nil_iff] at hnil
        exact (pieces p (by simp)).1 hnil.1
  · intro hmem
    obtain ⟨p, hp, hc⟩ := List.mem_flatMap.mp hmem
    exact (pieces p hp).2 hc

end Segment

namespace Pattern

open Regex

variable {value : List Char → List Char}

theorem matches_pieces_iff (pieces : Segment) {parts : List Part} {s : List Char}
    {captured : Captures} :
    Matches (pieces.map partOf ++ parts) s (pieces.names.map value ++ captured) ↔
      (∀ name ∈ pieces.names, IsValue (value name)) ∧
        ∃ rest, s = pieces.fill value ++ rest ∧ Matches parts rest captured := by
  induction pieces generalizing s with
  | nil => simp
  | cons p pieces ih =>
      cases p with
      | char c =>
          rw [List.map_cons, partOf, List.cons_append, matches_char_iff,
            Segment.names_char_cons]
          constructor
          · rintro ⟨_, rfl, hpieces⟩
            obtain ⟨values, rest, rfl, h⟩ := ih.mp hpieces
            exact ⟨values, rest, rfl, h⟩
          · rintro ⟨values, rest, rfl, h⟩
            exact ⟨Segment.fill value pieces ++ rest, rfl, ih.mpr ⟨values, rest, rfl, h⟩⟩
      | «variable» name =>
          rw [List.map_cons, partOf, List.cons_append, matches_variable_iff,
            Segment.names_variable_cons, List.forall_mem_cons]
          constructor
          · rintro ⟨_, _, _, rfl, heq, ne, noSlash, hpieces⟩
            obtain ⟨rfl, rfl⟩ := List.cons.inj heq
            obtain ⟨values, rest, rfl, h⟩ := ih.mp hpieces
            exact ⟨⟨⟨ne, noSlash⟩, values⟩, rest, (List.append_assoc _ _ _).symm, h⟩
          · rintro ⟨⟨hvalue, values⟩, rest, rfl, h⟩
            exact ⟨value name, Segment.fill value pieces ++ rest, _, List.append_assoc _ _ _, rfl,
              hvalue.1, hvalue.2, ih.mpr ⟨values, rest, rfl, h⟩⟩

def laterParts (segments : List Segment) : List Part :=
  (segments.flatMap fun s => .separator :: s.map partOf) ++ [.slashes]

theorem laterParts_cons (s : Segment) (segments : List Segment) :
    laterParts (s :: segments) = .separator :: (s.map partOf ++ laterParts segments) := by
  simp [laterParts]

theorem regex_parts_cons (s : Segment) (segments : List Segment) :
    partsOf (s :: segments) ++ [.slashes] = .slashes :: (s.map partOf ++ laterParts segments) := by
  simp [partsOf, laterParts]

theorem matches_slashes_end_iff {s : List Char} {captured : Captures} :
    Matches [.slashes] s captured ↔ captured = [] ∧ Path.segments s = [] := by
  rw [Path.segments_eq_nil_iff]
  constructor
  · intro h
    obtain ⟨taken, rest, rfl, all, h⟩ := matches_slashes_iff.mp h
    obtain ⟨rfl, rfl⟩ := matches_nil_iff.mp h
    exact ⟨rfl, by simpa using all⟩
  · rintro ⟨rfl, all⟩
    rw [← List.append_nil s]
    exact .slashes all .nil

variable (value) in
private theorem segment_then_iff {segment : Segment} (writable : segment.IsWritable)
    {parts : List Part} {captured : Captures} {words : List (List Char)} {values : Prop}
    (ih : ∀ rest, Matches parts rest captured ↔
      values ∧ words = Path.segments rest ∧ Path.AfterSegment rest) (s : List Char) :
    (∃ taken rest, s = taken ++ rest ∧ (∀ c ∈ taken, c = '/') ∧
      Matches (segment.map partOf ++ parts) rest (segment.names.map value ++ captured)) ↔
    ((∀ name ∈ segment.names, IsValue (value name)) ∧ values) ∧
      segment.fill value :: words = Path.segments s := by
  constructor
  · rintro ⟨taken, _, rfl, all, hpieces⟩
    obtain ⟨own, rest, rfl, h⟩ := (matches_pieces_iff segment).mp hpieces
    obtain ⟨others, rfl, after⟩ := (ih rest).mp h
    have word := Segment.isValue_fill writable own
    rw [Path.segments_slashes_append all, Path.segments_append_afterSegment word.1 word.2 after]
    exact ⟨⟨own, others⟩, rfl⟩
  · rintro ⟨⟨own, others⟩, h⟩
    obtain ⟨taken, rest, rfl, all, -, -, after, rfl⟩ := Path.segments_eq_cons_iff.mp h.symm
    refine ⟨taken, _, rfl, all, ?_⟩
    exact (matches_pieces_iff segment).mpr ⟨own, rest, rfl, (ih rest).mpr ⟨others, rfl, after⟩⟩

theorem matches_laterParts_iff {segments : List Segment}
    (writable : ∀ s ∈ segments, s.IsWritable) (s : List Char) :
    Matches (laterParts segments) s ((segments.flatMap Segment.names).map value) ↔
      (∀ name ∈ segments.flatMap Segment.names, IsValue (value name)) ∧
        segments.map (Segment.fill value) = Path.segments s ∧ Path.AfterSegment s := by
  induction segments generalizing s with
  | nil =>
      change Matches [.slashes] s [] ↔ _
      rw [matches_slashes_end_iff, Path.segments_eq_nil_iff]
      constructor
      · rintro ⟨-, all⟩
        refine ⟨by simp, (Path.segments_eq_nil_iff.mpr all).symm, ?_⟩
        intro c hc
        exact all c (List.mem_of_head? (Option.mem_def.mp hc))
      · rintro ⟨-, h, -⟩
        exact ⟨rfl, Path.segments_eq_nil_iff.mp h.symm⟩
  | cons segment segments ih =>
      rw [List.forall_mem_cons] at writable
      have rest := segment_then_iff value writable.1 (ih writable.2) s
      rw [List.flatMap_cons, List.map_append, List.forall_mem_append, List.map_cons,
        laterParts_cons, matches_separator_iff]
      constructor
      · rintro ⟨taken, later, rfl, ne, all, h⟩
        obtain ⟨values, heq⟩ := rest.mp ⟨taken, later, rfl, all, h⟩
        exact ⟨values, heq, Path.afterSegment_append_of_ne_nil ne all⟩
      · rintro ⟨values, heq, after⟩
        obtain ⟨taken, later, rfl, all, h⟩ := rest.mpr ⟨values, heq⟩
        refine ⟨taken, later, rfl, ?_, all, h⟩
        rintro rfl
        obtain ⟨-, remaining, hlater, -⟩ := (matches_pieces_iff segment).mp h
        have word := Segment.isValue_fill writable.1 values.1
        cases hword : Segment.fill value segment with
        | nil => exact word.1 hword
        | cons c cs =>
            rw [hlater, hword] at after
            obtain rfl : c = '/' := after c (by simp)
            exact word.2 (by simp [hword])

/-- The parts of a template match a text with given values exactly if these fill the segments of
the template to the segments of the text. -/
theorem matches_partsOf_iff {segments : List Segment} (writable : ∀ s ∈ segments, s.IsWritable)
    (s : List Char) :
    Matches (partsOf segments ++ [.slashes]) s ((segments.flatMap Segment.names).map value) ↔
      (∀ name ∈ segments.flatMap Segment.names, IsValue (value name)) ∧
        segments.map (Segment.fill value) = Path.segments s := by
  cases segments with
  | nil =>
      change Matches [.slashes] s [] ↔ _
      rw [matches_slashes_end_iff]
      constructor
      · rintro ⟨-, h⟩
        exact ⟨by simp, h.symm⟩
      · rintro ⟨-, h⟩
        exact ⟨rfl, h.symm⟩
  | cons segment segments =>
      rw [List.forall_mem_cons] at writable
      rw [regex_parts_cons, matches_slashes_iff, List.flatMap_cons, List.map_append,
        List.forall_mem_append, List.map_cons]
      exact segment_then_iff value writable.1 (matches_laterParts_iff writable.2) s

private theorem not_matches_pieces_slash {segment : Segment} (writable : segment.IsWritable)
    (parts : List Part) (s : List Char) (captured : Captures) :
    ¬ Matches (segment.map partOf ++ parts) ('/' :: s) captured := by
  intro h
  cases segment with
  | nil => exact writable.1 rfl
  | cons p segment =>
      cases p with
      | char c =>
          obtain ⟨rest, heq, -⟩ := matches_char_iff.mp h
          obtain ⟨rfl, -⟩ := List.cons.inj heq
          exact writable.2 (by simp)
      | «variable» name =>
          obtain ⟨taken, rest, more, heq, -, ne, noSlash, -⟩ := matches_variable_iff.mp h
          cases taken with
          | nil => exact ne rfl
          | cons c taken =>
              obtain ⟨rfl, -⟩ := List.cons.inj heq
              exact noSlash (by simp)

private theorem settled_pieces (segment : Segment) {parts : List Part} (h : Settled parts) :
    Settled (segment.map partOf ++ parts) := by
  induction segment with
  | nil => exact h
  | cons p segment ih =>
      cases p with
      | char c => exact ih
      | «variable» name => exact ih

private theorem settled_slashes_end : Settled [.slashes] := by
  refine ⟨?_, trivial⟩
  intro s captured h
  exact List.cons_ne_nil _ _ (matches_nil_iff.mp h).1

private theorem settled_laterParts {segments : List Segment}
    (writable : ∀ s ∈ segments, s.IsWritable) : Settled (laterParts segments) := by
  induction segments with
  | nil => exact settled_slashes_end
  | cons segment segments ih =>
      rw [List.forall_mem_cons] at writable
      rw [laterParts_cons]
      exact ⟨not_matches_pieces_slash writable.1 _, settled_pieces segment (ih writable.2)⟩

theorem settled_partsOf {segments : List Segment} (writable : ∀ s ∈ segments, s.IsWritable) :
    Settled (partsOf segments ++ [.slashes]) := by
  cases segments with
  | nil => exact settled_slashes_end
  | cons segment segments =>
      rw [List.forall_mem_cons] at writable
      rw [regex_parts_cons]
      exact ⟨not_matches_pieces_slash writable.1 _,
        settled_pieces segment (settled_laterParts writable.2)⟩

/-- Values that turn the segments of a pattern into those of a text. -/
def Fills (p : Pattern) (s : List Char) (value : List Char → List Char) : Prop :=
  (∀ name ∈ p.rawNames, IsValue (value name)) ∧
    p.segments.map (Segment.fill value) = Path.segments s

theorem matches_regex_iff (p : Pattern) (s : List Char) :
    Matches p.regex.parts s (p.rawNames.map value) ↔ p.Fills s value :=
  matches_partsOf_iff (fun _ h => isWritable_of_mem h) s

theorem count_variable_pieces (pieces : Segment) :
    (pieces.map partOf).count .variable = pieces.names.length := by
  induction pieces with
  | nil => rfl
  | cons p pieces ih => cases p <;> simp [partOf, ih]

theorem count_variable_laterParts (segments : List Segment) :
    (laterParts segments).count .variable = (segments.flatMap Segment.names).length := by
  induction segments with
  | nil => rfl
  | cons s segments ih =>
      rw [laterParts_cons, List.count_cons_of_ne (by decide), List.count_append,
        count_variable_pieces, ih, List.flatMap_cons, List.length_append]

theorem count_variable_regex (p : Pattern) : p.regex.parts.count .variable = p.rawNames.length := by
  rw [regex, rawNames]
  cases p.segments with
  | nil => rfl
  | cons s segments =>
      rw [regex_parts_cons, List.count_cons_of_ne (by decide), List.count_append,
        count_variable_pieces, count_variable_laterParts, List.flatMap_cons, List.length_append]

private theorem exists_map_eq {names values : List (List Char)} (nodup : names.Nodup)
    (len : values.length = names.length) : ∃ value, names.map value = values := by
  induction names generalizing values with
  | nil => exact ⟨id, (List.length_eq_zero_iff.mp len).symm⟩
  | cons name names ih =>
      cases values with
      | nil => simp at len
      | cons v values =>
          rw [List.nodup_cons] at nodup
          obtain ⟨value, rfl⟩ := ih nodup.2 (by simpa using len)
          refine ⟨fun n => if n = name then v else value n, ?_⟩
          rw [List.map_cons, if_pos rfl, List.cons.injEq]
          refine ⟨rfl, List.map_congr_left ?_⟩
          intro n hn
          rw [if_neg fun heq : n = name => nodup.1 (heq ▸ hn)]

theorem fills_of_matches {p : Pattern} {s : List Char} {captured : Captures}
    (h : Matches p.regex.parts s captured) :
    ∃ value, captured = p.rawNames.map value ∧ p.Fills s value := by
  have len := h.length_captured
  rw [count_variable_regex] at len
  obtain ⟨value, rfl⟩ := exists_map_eq p.nodup_rawNames len
  exact ⟨value, rfl, (p.matches_regex_iff s).mp h⟩

theorem isMatch_iff_exists_fills {p : Pattern} {path : String} :
    p.isMatch path = true ↔ ∃ value, p.Fills path.toList value := by
  rw [isMatch, Regex.isMatch_iff]
  constructor
  · rintro ⟨captured, h⟩
    obtain ⟨value, -, hfills⟩ := fills_of_matches h
    exact ⟨value, hfills⟩
  · rintro ⟨value, hfills⟩
    exact ⟨_, (p.matches_regex_iff _).mpr hfills⟩

/-- The captured values fill the template, and values that fill it differently are shorter where
their lengths first differ. -/
theorem greatest_fills_of_captures {p : Pattern} {s : List Char} {captured : Captures}
    (h : p.regex.captures s = some captured) :
    ∃ value, captured = p.rawNames.map value ∧ p.Fills s value ∧
      ∀ other, p.Fills s other → (∀ name ∈ p.rawNames, other name = value name) ∨
        (p.rawNames.map fun name => (other name).length) <
          p.rawNames.map fun name => (value name).length := by
  rw [captures_eq_search] at h
  obtain ⟨value, rfl, hfills⟩ := fills_of_matches (matches_of_search h)
  refine ⟨value, rfl, hfills, ?_⟩
  intro other hother
  have settled := settled_partsOf fun s (h : s ∈ p.segments) => isWritable_of_mem h
  rcases eq_or_lengths_lt_of_search settled h ((p.matches_regex_iff s).mpr hother) with heq | hlt
  · exact .inl (List.map_inj_left.mp heq)
  · right
    simpa [Function.comp_def] using hlt

end Pattern

end HttpRouting
