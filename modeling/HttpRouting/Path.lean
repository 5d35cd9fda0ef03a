/-!
# Paths

A path is read as its non-empty segments between slashes, so leading, trailing and repeated slashes
carry no meaning. Segments are never empty and hold no slash.
-/

namespace HttpRouting.Path

def parts : List Char → List (List Char)
  | [] => [[]]
  | c :: cs =>
      if c = '/' then [] :: parts cs
      else match parts cs with
        | [] => [[c]]
        | part :: rest => (c :: part) :: rest

/-- The non-empty parts of a path between its slashes. -/
def segments (path : List Char) : List (List Char) :=
  (parts path).filter fun part => !part.isEmpty

theorem parts_ne_nil (cs : List Char) : parts cs ≠ [] := by
  cases cs with
  | nil => simp [parts]
  | cons c cs =>
      rw [parts]
      split
      · simp
      · split <;> simp

theorem slash_not_mem_parts {cs part : List Char} (h : part ∈ parts cs) : '/' ∉ part := by
  induction cs generalizing part with
  | nil => simp_all [parts]
  | cons c cs ih =>
      rw [parts] at h
      split at h
      · rcases List.mem_cons.mp h with rfl | h
        · simp
        · exact ih h
      · next hc =>
        split at h
        · next hnil => exact absurd hnil (parts_ne_nil cs)
        · next first rest hcs =>
          rcases List.mem_cons.mp h with rfl | h
          · have noSlash : '/' ∉ first := ih (by simp [hcs])
            simpa [Ne.symm hc] using noSlash
          · exact ih (by simp [hcs, h])

theorem slash_not_mem_segments {path segment : List Char} (h : segment ∈ segments path) :
    '/' ∉ segment :=
  slash_not_mem_parts (List.mem_filter.mp h).1

theorem segments_ne_nil {path segment : List Char} (h : segment ∈ segments path) :
    segment ≠ [] := by
  rintro rfl
  simpa using (List.mem_filter.mp h).2

theorem parts_append_slash (xs ys : List Char) :
    parts (xs ++ '/' :: ys) = parts xs ++ parts ys := by
  induction xs with
  | nil => simp [parts]
  | cons c cs ih =>
      rw [List.cons_append, parts, parts, ih]
      split
      · rfl
      · cases hcs : parts cs with
        | nil => exact absurd hcs (parts_ne_nil cs)
        | cons part rest => rfl

theorem parts_of_slash_not_mem {cs : List Char} (h : '/' ∉ cs) : parts cs = [cs] := by
  induction cs with
  | nil => rfl
  | cons c cs ih =>
      rw [List.mem_cons, not_or] at h
      rw [parts, if_neg (Ne.symm h.1), ih h.2]

@[simp] theorem segments_nil : segments [] = [] := rfl

@[simp] theorem segments_append_slash (xs ys : List Char) :
    segments (xs ++ '/' :: ys) = segments xs ++ segments ys := by
  simp [segments, parts_append_slash]

@[simp] theorem segments_slash_cons (cs : List Char) : segments ('/' :: cs) = segments cs :=
  segments_append_slash [] cs

theorem segments_of_slash_not_mem {segment : List Char} (hne : segment ≠ [])
    (h : '/' ∉ segment) : segments segment = [segment] := by
  simp [segments, parts_of_slash_not_mem h, hne]

theorem segments_flatMap_slash {written : List (List Char)}
    (h : ∀ s ∈ written, s ≠ [] ∧ '/' ∉ s) :
    segments (written.flatMap fun s => '/' :: s) = written := by
  induction written with
  | nil => rfl
  | cons s rest ih =>
      obtain ⟨hne, hs⟩ := h s (by simp)
      have tail := ih fun t ht => h t (by simp [ht])
      cases rest with
      | nil => simp [segments_of_slash_not_mem hne hs]
      | cons t rest =>
          rw [List.flatMap_cons, List.cons_append, segments_slash_cons, List.flatMap_cons,
            List.cons_append, segments_append_slash, segments_of_slash_not_mem hne hs]
          rw [List.flatMap_cons, List.cons_append, segments_slash_cons] at tail
          rw [tail]
          rfl

end HttpRouting.Path
