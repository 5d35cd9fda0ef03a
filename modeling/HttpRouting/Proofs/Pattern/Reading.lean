import HttpRouting.Pattern.Basic

/-!
# Templates that could be read

No name stands twice in a template, its segments are those of its text, and its key tells its
segments. Replacing the names in the text of a segment is filling its pieces.
-/

namespace HttpRouting

def Piece.fill (value : List Char → List Char) : Piece → List Char
  | .char c => [c]
  | .variable name => value name

namespace Segment

def fill (value : List Char → List Char) (s : Segment) : List Char := s.flatMap (Piece.fill value)

@[simp] theorem fill_nil (value : List Char → List Char) : fill value [] = [] := rfl

@[simp] theorem fill_cons (value : List Char → List Char) (p : Piece) (s : Segment) :
    fill value (p :: s) = p.fill value ++ fill value s := rfl

@[simp] theorem names_nil : names [] = [] := rfl

@[simp] theorem names_char_cons (c : Char) (s : Segment) : names (.char c :: s) = names s := rfl

@[simp] theorem names_variable_cons (name : List Char) (s : Segment) :
    names (.variable name :: s) = name :: names s := rfl

theorem fill_of_isPattern_eq_false {value : List Char → List Char} {s : Segment}
    (h : s.isPattern = false) : fill value s = s.text := by
  induction s with
  | nil => rfl
  | cons p s ih =>
      cases p with
      | char c =>
          rw [fill_cons, text_cons, ih (by simpa [isPattern, Piece.name?] using h)]
          rfl
      | «variable» name => simp [isPattern, Piece.name?] at h

def IsWritable (s : Segment) : Prop := s ≠ [] ∧ Piece.char '/' ∉ s

theorem isWritable_of_text {s : Segment} (ne : s.text ≠ []) (noSlash : '/' ∉ s.text) :
    s.IsWritable := by
  constructor
  · rintro rfl
    exact ne rfl
  · intro h
    exact noSlash (List.mem_flatMap.mpr ⟨.char '/', h, List.mem_singleton.mpr rfl⟩)

end Segment

/-- The text of a segment with each name in braces replaced by its value; the second argument holds
what was met since an open brace. -/
def replaceNames (value : List Char → List Char) : Option (List Char) → List Char → List Char
  | none, [] => []
  | some inside, [] => '\x7b' :: inside
  | none, c :: cs =>
      if c = '\x7b' then replaceNames value (some []) cs else c :: replaceNames value none cs
  | some inside, c :: cs =>
      if c = '\x7d' then value inside ++ replaceNames value none cs
      else replaceNames value (some (inside ++ [c])) cs

/-- A segment that was read is filled where the names in its text are replaced. -/
theorem fill_readSegment {value : List Char → List Char} {whole cs : List Char}
    {seen : List (List Char)} {brace : Option (List Char)} {segment : Segment}
    (h : readSegment whole seen brace cs = .ok segment) :
    segment.fill value = replaceNames value brace cs := by
  induction cs generalizing seen brace segment with
  | nil =>
      cases brace with
      | none =>
          cases h
          rfl
      | some inside => simp [readSegment] at h
  | cons c cs ih =>
      cases brace with
      | none =>
          rw [readSegment] at h
          rw [replaceNames]
          split at h
          · next hc => rw [if_pos hc, ih h]
          · next hc =>
            split at h
            · simp at h
            · obtain ⟨s, hs, rfl⟩ := map_eq_ok h
              rw [if_neg hc, Segment.fill_cons, ih hs]
              rfl
      | some inside =>
          rw [readSegment] at h
          rw [replaceNames]
          split at h
          · next hc => rw [if_neg hc, ih h]
          · next hc =>
            split at h
            · simp at h
            · split at h
              · simp at h
              · obtain ⟨s, hs, rfl⟩ := map_eq_ok h
                rw [if_pos (by simpa using hc), Segment.fill_cons, ih hs]
                rfl

theorem map_fill_readSegments {value : List Char → List Char} {seen : List (List Char)}
    {written : List (List Char)} {segments : List Segment}
    (h : readSegments seen written = .ok segments) :
    segments.map (Segment.fill value) = written.map (replaceNames value none) := by
  induction written generalizing seen segments with
  | nil =>
      cases h
      rfl
  | cons s rest ih =>
      rw [readSegments] at h
      split at h
      · simp at h
      · next segment hs =>
        obtain ⟨others, ho, rfl⟩ := map_eq_ok h
        rw [List.map_cons, List.map_cons, ih ho, fill_readSegment hs]

theorem nodup_names_readSegment {whole cs : List Char} {seen : List (List Char)}
    {brace : Option (List Char)} {segment : Segment}
    (h : readSegment whole seen brace cs = .ok segment) (nodup : seen.Nodup) :
    (seen ++ segment.names).Nodup := by
  induction cs generalizing seen brace segment with
  | nil =>
      cases brace with
      | none =>
          cases h
          simpa using nodup
      | some inside => simp [readSegment] at h
  | cons c cs ih =>
      cases brace with
      | none =>
          rw [readSegment] at h
          split at h
          · exact ih h nodup
          · split at h
            · simp at h
            · obtain ⟨s, hs, rfl⟩ := map_eq_ok h
              rw [Segment.names_char_cons]
              exact ih hs nodup
      | some inside =>
          rw [readSegment] at h
          split at h
          · exact ih h nodup
          · split at h
            · simp at h
            · split at h
              · simp at h
              · next hseen =>
                obtain ⟨s, hs, rfl⟩ := map_eq_ok h
                have extended : (seen ++ [inside]).Nodup := by
                  rw [List.nodup_append]
                  refine ⟨nodup, by simp, ?_⟩
                  rintro a ha b hb rfl
                  exact hseen (List.mem_singleton.mp hb ▸ ha)
                simpa using ih hs extended

theorem nodup_names_readSegments {seen : List (List Char)} {written : List (List Char)}
    {segments : List Segment} (h : readSegments seen written = .ok segments)
    (nodup : seen.Nodup) : (seen ++ segments.flatMap Segment.names).Nodup := by
  induction written generalizing seen segments with
  | nil =>
      cases h
      simpa using nodup
  | cons s rest ih =>
      rw [readSegments] at h
      split at h
      · simp at h
      · next segment hs =>
        obtain ⟨others, ho, rfl⟩ := map_eq_ok h
        rw [List.flatMap_cons, ← List.append_assoc]
        exact ih ho (nodup_names_readSegment hs nodup)

namespace Pattern

def rawNames (p : Pattern) : List (List Char) := p.segments.flatMap Segment.names

theorem nodup_rawNames (p : Pattern) : p.rawNames.Nodup :=
  nodup_names_readSegments p.readTemplate_eq List.nodup_nil

theorem nodup_names (p : Pattern) : p.names.Nodup := by
  apply List.Pairwise.map String.ofList ?_ p.nodup_rawNames
  intro a b hab heq
  exact hab (by simpa using congrArg String.toList heq)

theorem map_text_segments (p : Pattern) :
    p.segments.map Segment.text = Path.segments p.template.toList :=
  map_text_readSegments p.readTemplate_eq

theorem isWritable_of_mem {p : Pattern} {s : Segment} (h : s ∈ p.segments) : s.IsWritable := by
  have hmem : s.text ∈ Path.segments p.template.toList := by
    rw [← p.map_text_segments]
    exact List.mem_map_of_mem h
  exact Segment.isWritable_of_text (Path.segments_ne_nil hmem) (Path.slash_not_mem_segments hmem)

theorem map_fill_segments (p : Pattern) (value : List Char → List Char) :
    p.segments.map (Segment.fill value) =
      (Path.segments p.template.toList).map (replaceNames value none) :=
  map_fill_readSegments p.readTemplate_eq

theorem segments_eq_iff {p q : Pattern} :
    p.segments = q.segments ↔
      Path.segments p.template.toList = Path.segments q.template.toList := by
  constructor
  · intro h
    rw [← p.map_text_segments, ← q.map_text_segments, h]
  · intro h
    have hp := p.readTemplate_eq
    have hq := q.readTemplate_eq
    rw [readTemplate, h, ← readTemplate, hq] at hp
    exact (Except.ok.inj hp).symm

theorem segments_key (p : Pattern) :
    Path.segments p.key.toList = Path.segments p.template.toList := by
  rw [← p.map_text_segments]
  unfold key
  split
  · next h =>
    rw [h]
    rfl
  · have written : ∀ s ∈ p.segments.map Segment.text, s ≠ [] ∧ '/' ∉ s := by
      intro s hs
      rw [p.map_text_segments] at hs
      exact ⟨Path.segments_ne_nil hs, Path.slash_not_mem_segments hs⟩
    have hread := Path.segments_flatMap_slash written
    rw [List.flatMap_map] at hread
    rw [String.toList_ofList, hread]

theorem key_eq_iff {p q : Pattern} : p.key = q.key ↔ p.segments = q.segments := by
  constructor
  · intro h
    rw [segments_eq_iff, ← p.segments_key, ← q.segments_key, h]
  · intro h
    rw [key, key, h]

end Pattern

end HttpRouting
