import HttpRouting.Chain.Basic
import HttpRouting.Proofs.Pattern.Encoding

/-!
# Paths below a base path

A path passes a filter if it is written with the segments of a base path and a rest that is empty or
begins with a slash and holds no line feed. So its segments begin with those of the base path and no
later one holds a line feed, and behind a base path without segments it is empty or begins with a
slash. A template that begins with the segments of the base path knows neither condition, so it
matches paths that do not pass. The text of the expression of a base path reads back as its
segments.
-/

namespace HttpRouting

namespace Path

theorem mem_iff_exists_mem_parts {c : Char} (hc : c ≠ '/') (s : List Char) :
    c ∈ s ↔ ∃ part ∈ parts s, c ∈ part := by
  induction s with
  | nil => simp [parts]
  | cons d s ih =>
      rw [parts, List.mem_cons, ih]
      split
      · next hd => simp [hd, hc]
      · cases hs : parts s with
        | nil => exact absurd hs (parts_ne_nil s)
        | cons part rest => simp [or_assoc]

theorem mem_iff_exists_mem_segments {c : Char} (hc : c ≠ '/') (s : List Char) :
    c ∈ s ↔ ∃ word ∈ segments s, c ∈ word := by
  rw [mem_iff_exists_mem_parts hc, segments]
  constructor
  · rintro ⟨part, hpart, hmem⟩
    have hne : part ≠ [] := List.ne_nil_of_mem hmem
    exact ⟨part, List.mem_filter.mpr ⟨hpart, by simpa using hne⟩, hmem⟩
  · rintro ⟨word, hword, hmem⟩
    exact ⟨word, (List.mem_filter.mp hword).1, hmem⟩

/-- The segments of a text begin with the given ones, and no later one holds a line feed. -/
def Below (words : List (List Char)) (s : List Char) : Prop :=
  ∃ later, segments s = words ++ later ∧ ∀ word ∈ later, '\n' ∉ word

theorem below_nil_iff (s : List Char) : Below [] s ↔ '\n' ∉ s := by
  rw [mem_iff_exists_mem_segments (by decide)]
  simp [Below]

theorem below_iff_of_prefix {words : List (List Char)} {s : List Char}
    (h : words <+: segments s) :
    Below words s ↔ ∀ word ∈ (segments s).drop words.length, '\n' ∉ word := by
  obtain ⟨later, hlater⟩ := h
  have hdrop : (segments s).drop words.length = later := by
    rw [← hlater, List.drop_left]
  rw [hdrop]
  constructor
  · rintro ⟨other, hother, clean⟩
    rw [← hlater] at hother
    rw [List.append_cancel_left hother]
    exact clean
  · intro clean
    exact ⟨later, hlater.symm, clean⟩

/-- A text is written with the given words and a rest: slashes, the words with one or more slashes
between them, and the rest, which is empty or begins with a slash and holds no line feed. Without
words the rest is the whole text. -/
def WrittenWith (words : List (List Char)) (s : List Char) : Prop :=
  ∃ leading more rest, s = List.replicate leading '/' ++ (joined more words ++ rest) ∧
    (words = [] → leading = 0) ∧ AfterSegment rest ∧ '\n' ∉ rest

theorem writtenWith_nil_iff (s : List Char) : WrittenWith [] s ↔ AfterSegment s ∧ '\n' ∉ s := by
  constructor
  · rintro ⟨leading, more, rest, rfl, hleading, after, clean⟩
    rw [hleading rfl]
    exact ⟨after, clean⟩
  · rintro ⟨after, clean⟩
    exact ⟨0, [], s, rfl, fun _ => rfl, after, clean⟩

theorem writtenWith_iff_below {words : List (List Char)} (ne : words ≠ [])
    (written : ∀ word ∈ words, word ≠ [] ∧ '/' ∉ word) (s : List Char) :
    WrittenWith words s ↔ Below words s := by
  constructor
  · rintro ⟨leading, more, rest, rfl, -, after, clean⟩
    rw [mem_iff_exists_mem_segments (by decide)] at clean
    refine ⟨segments rest, segments_joined_append leading more ne written after, ?_⟩
    intro word hword mem
    exact clean ⟨word, hword, mem⟩
  · rintro ⟨later, hlater, clean⟩
    obtain ⟨leading, more, rest, rfl, after, rfl⟩ := exists_joined_of_segments_eq ne hlater
    refine ⟨leading, more, rest, rfl, fun h => absurd h ne, after, ?_⟩
    rw [mem_iff_exists_mem_segments (by decide)]
    rintro ⟨word, hword, mem⟩
    exact clean word hword mem

end Path

namespace PathFilter

open Regex

theorem matches_literal_iff (word : List Char) {parts : List Part} {s : List Char}
    {captured : Captures} :
    Matches (word.map .char ++ parts) s captured ↔
      ∃ rest, s = word ++ rest ∧ Matches parts rest captured := by
  induction word generalizing s with
  | nil => simp
  | cons c word ih =>
      rw [List.map_cons, List.cons_append, matches_char_iff]
      simp only [ih]
      constructor
      · rintro ⟨_, rfl, rest, rfl, h⟩
        exact ⟨rest, rfl, h⟩
      · rintro ⟨rest, rfl, h⟩
        exact ⟨word ++ rest, rfl, rest, rfl, h⟩

theorem matches_below_iff {s : List Char} {captured : Captures} :
    Matches [.below] s captured ↔
      captured = [] ∧ Path.AfterSegment s ∧ Path.Below [] s := by
  rw [Path.below_nil_iff]
  constructor
  · intro h
    cases h with
    | belowAbsent h =>
        obtain ⟨rfl, rfl⟩ := matches_nil_iff.mp h
        exact ⟨rfl, by simp [Path.AfterSegment], by simp⟩
    | belowPresent ne all noFeed h =>
        obtain ⟨rfl, rfl⟩ := matches_nil_iff.mp h
        refine ⟨rfl, Path.afterSegment_append_of_ne_nil ne all, ?_⟩
        rw [List.append_nil, List.mem_append]
        rintro (htaken | hline)
        · exact absurd (all _ htaken) (by decide)
        · exact noFeed hline
  · rintro ⟨rfl, after, noFeed⟩
    cases s with
    | nil => exact .belowAbsent .nil
    | cons c line =>
        obtain rfl : c = '/' := after c (by simp)
        rw [List.mem_cons, not_or] at noFeed
        have present : Matches [.below] (['/'] ++ (line ++ [])) [] :=
          .belowPresent (by simp) (by simp) noFeed.2 .nil
        simpa using present

private theorem word_then_iff {word : List Char} (ne : word ≠ []) (noSlash : '/' ∉ word)
    {words : List (List Char)} {parts : List Part} {captured : Captures}
    (ih : ∀ rest, Matches parts rest captured ↔
      captured = [] ∧ Path.AfterSegment rest ∧ Path.Below words rest) (s : List Char) :
    (∃ taken rest, s = taken ++ rest ∧ (∀ c ∈ taken, c = '/') ∧
      Matches (word.map .char ++ parts) rest captured) ↔
    captured = [] ∧ Path.Below (word :: words) s := by
  constructor
  · rintro ⟨taken, _, rfl, all, h⟩
    obtain ⟨rest, rfl, hrest⟩ := (matches_literal_iff word).mp h
    obtain ⟨rfl, after, later, hlater, clean⟩ := (ih rest).mp hrest
    refine ⟨rfl, later, ?_, clean⟩
    rw [Path.segments_slashes_append all, Path.segments_append_afterSegment ne noSlash after, hlater,
      List.cons_append]
  · rintro ⟨rfl, later, hlater, clean⟩
    rw [List.cons_append, Path.segments_eq_cons_iff] at hlater
    obtain ⟨taken, rest, rfl, all, -, -, after, hrest⟩ := hlater
    refine ⟨taken, word ++ rest, rfl, all, (matches_literal_iff word).mpr ⟨rest, rfl, ?_⟩⟩
    exact (ih rest).mpr ⟨rfl, after, later, hrest, clean⟩

private def laterParts (words : List (List Char)) : List Part :=
  (words.flatMap fun word => .separator :: word.map .char) ++ [.below]

private theorem matches_laterParts_iff {words : List (List Char)}
    (written : ∀ word ∈ words, word ≠ [] ∧ '/' ∉ word) (captured : Captures) (s : List Char) :
    Matches (laterParts words) s captured ↔
      captured = [] ∧ Path.AfterSegment s ∧ Path.Below words s := by
  induction words generalizing s with
  | nil => exact matches_below_iff
  | cons word words ih =>
      rw [List.forall_mem_cons] at written
      have following := word_then_iff written.1.1 written.1.2 (ih written.2) s
      have hparts : laterParts (word :: words) =
          .separator :: (word.map .char ++ laterParts words) := by simp [laterParts]
      rw [hparts, matches_separator_iff]
      constructor
      · rintro ⟨taken, rest, rfl, ne, all, h⟩
        obtain ⟨rfl, below⟩ := following.mp ⟨taken, rest, rfl, all, h⟩
        exact ⟨rfl, Path.afterSegment_append_of_ne_nil ne all, below⟩
      · rintro ⟨rfl, after, below⟩
        obtain ⟨taken, rest, rfl, all, h⟩ := following.mpr ⟨rfl, below⟩
        refine ⟨taken, rest, rfl, ?_, all, h⟩
        rintro rfl
        obtain ⟨remaining, rfl, -⟩ := (matches_literal_iff word).mp h
        obtain ⟨c, cs, rfl⟩ := List.exists_cons_of_ne_nil written.1.1
        exact written.1.2 (by simp [after c (by simp)])

theorem written_segments (base : String) :
    ∀ word ∈ Path.segments base.toList, word ≠ [] ∧ '/' ∉ word := by
  intro word hword
  exact ⟨Path.segments_ne_nil hword, Path.slash_not_mem_segments hword⟩

theorem isMatch_regexOf_iff (base : String) (s : List Char) :
    (regexOf base).isMatch s = true ↔ Path.Below (Path.segments base.toList) s ∧
      (Path.segments base.toList = [] → Path.AfterSegment s) := by
  rw [Regex.isMatch_iff, regexOf, segmentsOf]
  have written := written_segments base
  cases hwords : Path.segments base.toList with
  | nil =>
      change (∃ captured, Matches [.below] s captured) ↔ _
      simp [matches_below_iff, and_comm]
  | cons word words =>
      rw [hwords, List.forall_mem_cons] at written
      have hparts : Pattern.partsOf ((word :: words).map fun w => w.map Piece.char) ++ [.below] =
          .slashes :: (word.map .char ++ laterParts words) := by
        simp [Pattern.partsOf, laterParts, List.flatMap_map, Pattern.partOf, Function.comp_def]
      have following (captured : Captures) := word_then_iff written.1.1 written.1.2
        (matches_laterParts_iff written.2 captured) s
      rw [hparts]
      simp [matches_slashes_iff, following]

theorem accepts_singleton_iff (base path : String) :
    accepts ⟨[base]⟩ path = true ↔ Path.Below (Path.segments base.toList) path.toList ∧
      (Path.segments base.toList = [] → Path.AfterSegment path.toList) := by
  rw [← isMatch_regexOf_iff]
  simp [accepts]

theorem isMatch_regexOf_iff_writtenWith (base : String) (s : List Char) :
    (regexOf base).isMatch s = true ↔ Path.WrittenWith (Path.segments base.toList) s := by
  rw [isMatch_regexOf_iff]
  have written := written_segments base
  cases hwords : Path.segments base.toList with
  | nil =>
      rw [Path.writtenWith_nil_iff, Path.below_nil_iff, and_comm]
      simp
  | cons word words =>
      rw [hwords] at written
      rw [Path.writtenWith_iff_below (List.cons_ne_nil _ _) written]
      simp

theorem prefix_segments_of_accepts {base path : String} (h : accepts ⟨[base]⟩ path = true) :
    Path.segments base.toList <+: Path.segments path.toList := by
  obtain ⟨⟨later, hlater, -⟩, -⟩ := (accepts_singleton_iff base path).mp h
  exact ⟨later, hlater.symm⟩

theorem accepts_self (base : String) : accepts ⟨[base]⟩ base = true := by
  rw [accepts_singleton_iff]
  refine ⟨⟨[], by simp, by simp⟩, ?_⟩
  intro hnil
  cases hbase : base.toList with
  | nil => simp [Path.AfterSegment]
  | cons c cs =>
      rw [hbase, Path.segments_eq_nil_iff, List.forall_mem_cons] at hnil
      rw [hnil.1]
      exact Path.afterSegment_slash cs

/-- What a filter lets through. The characters of a base path stand for themselves, and a segment
that is longer than that of the base path is another one. -/
theorem accepts_iff_writtenWith (f : PathFilter) (path : String) :
    (f.accepts path = true ↔ f.bases = [] ∨
      ∃ base ∈ f.bases, Path.WrittenWith (Path.segments base.toList) path.toList) ∧
    (∀ base, accepts ⟨[base]⟩ base = true ∧ (accepts ⟨[base]⟩ path = true →
      Path.segments base.toList <+: Path.segments path.toList)) ∧
    ∀ base front last more after, Path.segments base.toList = front ++ [last] →
      Path.segments path.toList = front ++ (last ++ more) :: after → more ≠ [] →
      accepts ⟨[base]⟩ path = false := by
  refine ⟨?_, fun base => ⟨accepts_self base, prefix_segments_of_accepts⟩, ?_⟩
  · rw [accepts, Bool.or_eq_true, List.isEmpty_iff, List.any_eq_true]
    simp only [isMatch_regexOf_iff_writtenWith]
  · intro base front last more after hbase hpath longer
    rw [← Bool.not_eq_true]
    intro haccepts
    have lead := prefix_segments_of_accepts haccepts
    rw [hbase, hpath, List.prefix_append_right_inj, List.cons_prefix_cons] at lead
    exact longer (List.self_eq_append_right.mp lead.1)

/-- Points and braces of a base path stand for themselves. -/
theorem accepts_iff_writtenWith_of_marks :
    accepts ⟨["/x", "/a.b/\x7bc\x7d"]⟩ "a.b///\x7bc\x7d//d" = true ∧
      accepts ⟨["/a.b/\x7bc\x7d"]⟩ "/a.b/\x7bc\x7dd" = false := by
  have hbase : "/a.b/\x7bc\x7d".toList = ['/', 'a', '.', 'b', '/', '\x7b', 'c', '\x7d'] := by simp
  have hpath : "a.b///\x7bc\x7d//d".toList =
      ['a', '.', 'b', '/', '/', '/', '\x7b', 'c', '\x7d', '/', '/', 'd'] := by simp
  have hlonger : "/a.b/\x7bc\x7dd".toList = ['/', 'a', '.', 'b', '/', '\x7b', 'c', '\x7d', 'd'] := by
    simp
  constructor
  · refine (accepts_iff_writtenWith _ _).1.mpr (.inr ⟨"/a.b/\x7bc\x7d", by simp, ?_⟩)
    rw [hbase, hpath]
    exact ⟨0, [2], ['/', '/', 'd'], rfl, fun _ => rfl, Path.afterSegment_slash _, by simp⟩
  · refine (accepts_iff_writtenWith ⟨[]⟩ _).2.2 _ [['a', '.', 'b']] ['\x7b', 'c', '\x7d'] ['d'] []
      ?_ ?_ (by simp)
    · rw [hbase]
      rfl
    · rw [hlonger]
      rfl

theorem runs_regexOf (base : String) :
    runs (regexOf base).parts = (Path.segments base.toList).map (List.map some) := by
  have ne : ∀ s ∈ segmentsOf base, s ≠ [] := by
    intro s hs
    obtain ⟨word, hword, rfl⟩ := List.mem_map.mp hs
    simpa using Path.segments_ne_nil hword
  rw [regexOf, Pattern.runs_partsOf_append ne rfl, segmentsOf, List.map_map]
  congr 1
  funext word
  rw [Function.comp_apply, Segment.nameless, List.map_map]
  rfl

theorem text_regexOf_eq_iff {base other : String} : (regexOf base).text = (regexOf other).text ↔
    Path.segments base.toList = Path.segments other.toList := by
  constructor
  · intro h
    have same : runs (regexOf base).parts = runs (regexOf other).parts := by rw [eq_of_text_eq h]
    rw [runs_regexOf, runs_regexOf] at same
    refine (List.map_inj_right ?_).mp same
    intro word word' heq
    exact (List.map_inj_right fun _ _ => Option.some.inj).mp heq
  · intro h
    rw [regexOf, regexOf, segmentsOf, segmentsOf, h]

theorem openings_text_regexOf (base : String) : openings (regexOf base).text.toList = 1 := by
  have literal : .variable ∉ Pattern.partsOf (segmentsOf base) := by
    rw [segmentsOf]
    cases Path.segments base.toList <;> simp [Pattern.partsOf, Pattern.partOf]
  have captured : (regexOf base).parts.count .variable = 0 := by
    rw [List.count_eq_zero, regexOf, List.mem_append, not_or]
    exact ⟨literal, by simp⟩
  have below : (regexOf base).parts.count .below = 1 := by
    rw [regexOf, List.count_append, List.count_eq_zero.mpr (Pattern.below_not_mem_partsOf _)]
    rfl
  rw [openings_text, captured, below]

/-- The text of the expression of a base path is read in one way only: the segments of the base path
stand between its slashes, each character for itself, and one group follows for what is below them.
Two base paths have the same text exactly if they have the same segments, and then the same paths
pass. -/
theorem regexOf_text_reads_back (base : String) :
    (∃ parts, (∀ other, IsTextOf (regexOf base).text other ↔ other = parts ++ [.below]) ∧
      runs parts = (Path.segments base.toList).map (List.map some) ∧ .below ∉ parts) ∧
    openings (regexOf base).text.toList = 1 ∧
    ∀ other, ((regexOf base).text = (regexOf other).text ↔
        Path.segments base.toList = Path.segments other.toList) ∧
      ((regexOf base).text = (regexOf other).text →
        ∀ path, accepts ⟨[base]⟩ path = accepts ⟨[other]⟩ path) := by
  refine ⟨⟨_, fun _ => isTextOf_text_iff, ?_, Pattern.below_not_mem_partsOf _⟩,
    openings_text_regexOf base, ?_⟩
  · rw [← runs_regexOf, regexOf, runs_append (by simp [Part.isSeparator]),
      runs_separator_cons rfl, runs_nil, List.append_nil]
  · intro other
    refine ⟨text_regexOf_eq_iff, ?_⟩
    intro same path
    simp [accepts, eq_of_text_eq same]

example : (regexOf "/api//v.1/").text = "^/*api/+v\\.1(/+.*)?$" ∧
    (regexOf "/").text = "^(/+.*)?$" := by decide

theorem prefix_segments_of_isMatch {base path : String} {p : Pattern}
    (lead : segmentsOf base <+: p.segments) (hmatch : p.isMatch path = true) :
    Path.segments base.toList <+: Path.segments path.toList := by
  obtain ⟨value, -, hfill⟩ := Pattern.isMatch_iff_exists_fills.mp hmatch
  have literal (word : List Char) : Segment.fill value (word.map .char) = word := by
    induction word with
    | nil => rfl
    | cons c word ih => rw [List.map_cons, Segment.fill_cons, ih]; rfl
  have hbase : (segmentsOf base).map (Segment.fill value) = Path.segments base.toList := by
    simp [segmentsOf, Function.comp_def, literal]
  rw [← hfill, ← hbase]
  exact lead.map _

/-- Of the paths that a template below a base path matches, those pass the filter that hold no line
feed behind the base; behind a base without segments they must also be empty or begin with a
slash. -/
theorem accepts_iff_of_isMatch {base path : String} {p : Pattern}
    (lead : segmentsOf base <+: p.segments) (hmatch : p.isMatch path = true) :
    accepts ⟨[base]⟩ path = true ↔
      (∀ word ∈ (Path.segments path.toList).drop (Path.segments base.toList).length,
        '\n' ∉ word) ∧
      (Path.segments base.toList = [] → Path.AfterSegment path.toList) := by
  rw [accepts_singleton_iff, Path.below_iff_of_prefix (prefix_segments_of_isMatch lead hmatch)]

/-- A carriage return passes. -/
theorem accepts_iff_of_isMatch_of_return : ∃ p : Pattern,
    Pattern.compile "/api/\x7bx\x7d" = .ok p ∧ segmentsOf "api/" <+: p.segments ∧
      p.isMatch "api//\r/" = true ∧ accepts ⟨["api/"]⟩ "api//\r/" = true := by
  let p : Pattern := ⟨"/api/\x7bx\x7d", [[.char 'a', .char 'p', .char 'i'], [.variable ['x']]], rfl⟩
  have hbase : "api/".toList = ['a', 'p', 'i', '/'] := by simp
  have hpath : "api//\r/".toList = ['a', 'p', 'i', '/', '/', '\r', '/'] := by simp
  have lead : segmentsOf "api/" <+: p.segments := by
    rw [segmentsOf, hbase]
    exact ⟨[[.variable ['x']]], rfl⟩
  have hmatch : p.isMatch "api//\r/" = true := by
    rw [Pattern.isMatch, hpath]
    rfl
  refine ⟨p, p.compile_template, lead, hmatch, (accepts_iff_of_isMatch lead hmatch).mpr ?_⟩
  rw [hbase, hpath]
  decide

/-- A line feed below a base path does not pass, and neither does a path without a leading slash
below a base path without segments. -/
theorem accepts_eq_false_below :
    (∃ p : Pattern, Pattern.compile "/api/\x7bx\x7d" = .ok p ∧ segmentsOf "/api" <+: p.segments ∧
      p.isMatch "/api/\n" = true ∧ accepts ⟨["/api"]⟩ "/api/\n" = false) ∧
    ∃ p : Pattern, Pattern.compile "/\x7bx\x7d" = .ok p ∧ segmentsOf "/" <+: p.segments ∧
      p.isMatch "users" = true ∧ accepts ⟨["/"]⟩ "users" = false := by
  let api : Pattern := ⟨"/api/\x7bx\x7d", [[.char 'a', .char 'p', .char 'i'], [.variable ['x']]], rfl⟩
  let page : Pattern := ⟨"/\x7bx\x7d", [[.variable ['x']]], rfl⟩
  have hbase : "/api".toList = ['/', 'a', 'p', 'i'] := by simp
  have hpath : "/api/\n".toList = ['/', 'a', 'p', 'i', '/', '\n'] := by simp
  have husers : "users".toList = ['u', 's', 'e', 'r', 's'] := by simp
  refine ⟨⟨api, api.compile_template, ?_, ?_, ?_⟩, page, page.compile_template, ?_, ?_, ?_⟩
  · rw [segmentsOf, hbase]
    exact ⟨[[.variable ['x']]], rfl⟩
  · rw [Pattern.isMatch, hpath]
    rfl
  · rw [accepts, List.isEmpty_cons, Bool.false_or, List.any_cons, regexOf, segmentsOf, hbase, hpath]
    rfl
  · exact List.nil_prefix
  · rw [Pattern.isMatch, husers]
    rfl
  · rw [accepts, List.isEmpty_cons, Bool.false_or, List.any_cons, husers]
    rfl

end PathFilter

end HttpRouting
