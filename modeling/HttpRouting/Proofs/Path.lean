import HttpRouting.Path

/-!
# Segments in the text of a path

Where the segments of a path stand in its text: each is a run without slashes that follows slashes
and is followed by a slash or by the end.
-/

namespace HttpRouting.Path

/-- A text that can follow a segment: it is empty or begins with a slash. -/
def AfterSegment (s : List Char) : Prop := ∀ c ∈ s.head?, c = '/'

instance (s : List Char) : Decidable (AfterSegment s) :=
  inferInstanceAs (Decidable (∀ c ∈ s.head?, c = '/'))

theorem afterSegment_slash (s : List Char) : AfterSegment ('/' :: s) := by simp [AfterSegment]

theorem afterSegment_append_of_ne_nil {taken s : List Char} (ne : taken ≠ [])
    (all : ∀ c ∈ taken, c = '/') : AfterSegment (taken ++ s) := by
  cases taken with
  | nil => exact absurd rfl ne
  | cons c taken =>
      rw [all c (by simp)]
      exact afterSegment_slash _

theorem segments_slashes_append {taken : List Char} (all : ∀ c ∈ taken, c = '/')
    (s : List Char) : segments (taken ++ s) = segments s := by
  induction taken with
  | nil => rfl
  | cons c taken ih =>
      rw [List.forall_mem_cons] at all
      rw [all.1, List.cons_append, segments_slash_cons, ih all.2]

theorem segments_append_afterSegment {word rest : List Char} (ne : word ≠ [])
    (noSlash : '/' ∉ word) (after : AfterSegment rest) :
    segments (word ++ rest) = word :: segments rest := by
  cases rest with
  | nil => rw [List.append_nil, segments_of_slash_not_mem ne noSlash, segments_nil]
  | cons c rest =>
      obtain rfl : c = '/' := after c (by simp)
      rw [segments_append_slash, segments_of_slash_not_mem ne noSlash, segments_slash_cons,
        List.singleton_append]

theorem slashes_or_first_segment (s : List Char) :
    (∀ c ∈ s, c = '/') ∨ ∃ taken word rest, s = taken ++ (word ++ rest) ∧
      (∀ c ∈ taken, c = '/') ∧ word ≠ [] ∧ '/' ∉ word ∧ AfterSegment rest := by
  induction s with
  | nil => simp
  | cons c s ih =>
      by_cases hc : c = '/'
      · subst c
        rcases ih with all | ⟨taken, word, rest, rfl, all, ne, noSlash, after⟩
        · exact .inl (List.forall_mem_cons.mpr ⟨rfl, all⟩)
        · exact .inr ⟨'/' :: taken, word, rest, rfl, List.forall_mem_cons.mpr ⟨rfl, all⟩, ne,
            noSlash, after⟩
      · right
        refine ⟨[], c :: s.takeWhile (· != '/'), s.dropWhile (· != '/'), ?_, by simp, by simp, ?_,
          ?_⟩
        · simp
        · intro hmem
          rcases List.mem_cons.mp hmem with heq | hmem
          · exact hc heq.symm
          · simpa using List.all_eq_true.mp List.all_takeWhile _ hmem
        · intro d hd
          have hhead := List.head?_dropWhile_not (· != '/') s
          rw [Option.mem_def.mp hd] at hhead
          simpa using hhead

theorem segments_eq_nil_iff {s : List Char} : segments s = [] ↔ ∀ c ∈ s, c = '/' := by
  constructor
  · intro h
    rcases slashes_or_first_segment s with all | ⟨taken, word, rest, rfl, all, ne, noSlash, after⟩
    · exact all
    · rw [segments_slashes_append all, segments_append_afterSegment ne noSlash after] at h
      exact absurd h (List.cons_ne_nil _ _)
  · intro all
    rw [← List.append_nil s, segments_slashes_append all, segments_nil]

theorem segments_eq_cons_iff {s word : List Char} {words : List (List Char)} :
    segments s = word :: words ↔ ∃ taken rest, s = taken ++ (word ++ rest) ∧
      (∀ c ∈ taken, c = '/') ∧ word ≠ [] ∧ '/' ∉ word ∧ AfterSegment rest ∧
      segments rest = words := by
  constructor
  · intro h
    rcases slashes_or_first_segment s with all | ⟨taken, found, rest, rfl, all, ne, noSlash, after⟩
    · rw [segments_eq_nil_iff.mpr all] at h
      exact absurd h (List.cons_ne_nil _ _).symm
    · rw [segments_slashes_append all, segments_append_afterSegment ne noSlash after] at h
      obtain ⟨rfl, rfl⟩ := List.cons.inj h
      exact ⟨taken, rest, rfl, all, ne, noSlash, after, rfl⟩
  · rintro ⟨taken, rest, rfl, all, ne, noSlash, after, rfl⟩
    rw [segments_slashes_append all, segments_append_afterSegment ne noSlash after]

/-- Words with slashes between them: one, and as many more as the list says. -/
def joined : List Nat → List (List Char) → List Char
  | _, [] => []
  | _, [word] => word
  | more, word :: next :: words =>
      word ++ '/' :: (List.replicate (more.headD 0) '/' ++ joined more.tail (next :: words))

/-- Words with one or more slashes between them and any number of slashes at both ends. -/
def spelled (leading : Nat) (more : List Nat) (trailing : Nat) (words : List (List Char)) :
    List Char :=
  List.replicate leading '/' ++ (joined more words ++ List.replicate trailing '/')

theorem segments_joined (more : List Nat) {words : List (List Char)}
    (written : ∀ word ∈ words, word ≠ [] ∧ '/' ∉ word) : segments (joined more words) = words := by
  induction words generalizing more with
  | nil => rfl
  | cons word words ih =>
      rw [List.forall_mem_cons] at written
      have own := segments_of_slash_not_mem written.1.1 written.1.2
      cases words with
      | nil => exact own
      | cons next words =>
          rw [joined, segments_append_slash, own,
            segments_slashes_append fun c hc => List.eq_of_mem_replicate hc, ih _ written.2,
            List.singleton_append]

theorem segments_append_slashes (s : List Char) (n : Nat) :
    segments (s ++ List.replicate n '/') = segments s := by
  cases n with
  | zero => rw [List.replicate_zero, List.append_nil]
  | succ n =>
      have all : segments (List.replicate n '/') = [] :=
        segments_eq_nil_iff.mpr fun c hc => List.eq_of_mem_replicate hc
      rw [List.replicate_succ, segments_append_slash, all, List.append_nil]

theorem segments_spelled (leading : Nat) (more : List Nat) (trailing : Nat)
    {words : List (List Char)} (written : ∀ word ∈ words, word ≠ [] ∧ '/' ∉ word) :
    segments (spelled leading more trailing words) = words := by
  rw [spelled, segments_slashes_append fun c hc => List.eq_of_mem_replicate hc,
    segments_append_slashes, segments_joined more written]

theorem eq_replicate_slash {taken : List Char} (all : ∀ c ∈ taken, c = '/') :
    taken = List.replicate taken.length '/' := List.eq_replicate_of_mem all

theorem exists_joined_eq_append (more : List Nat) (word : List Char) (words : List (List Char)) :
    ∃ rest, joined more (word :: words) = word ++ rest := by
  cases words with
  | nil => exact ⟨[], (List.append_nil word).symm⟩
  | cons next words => exact ⟨_, rfl⟩

theorem segments_joined_append (leading : Nat) (more : List Nat) {words : List (List Char)}
    (ne : words ≠ []) (written : ∀ word ∈ words, word ≠ [] ∧ '/' ∉ word) {rest : List Char}
    (after : AfterSegment rest) :
    segments (List.replicate leading '/' ++ (joined more words ++ rest)) =
      words ++ segments rest := by
  rw [segments_slashes_append fun c hc => List.eq_of_mem_replicate hc]
  induction words generalizing more with
  | nil => exact absurd rfl ne
  | cons word words ih =>
      rw [List.forall_mem_cons] at written
      cases words with
      | nil => exact segments_append_afterSegment written.1.1 written.1.2 after
      | cons next words =>
          have later := ih more.tail (List.cons_ne_nil _ _) written.2
          rw [joined, List.append_assoc, List.cons_append, List.append_assoc, segments_append_slash,
            segments_slashes_append fun c hc => List.eq_of_mem_replicate hc, later,
            segments_of_slash_not_mem written.1.1 written.1.2]
          rfl

theorem exists_joined_of_segments_eq {words later : List (List Char)} (ne : words ≠ [])
    {s : List Char} (h : segments s = words ++ later) :
    ∃ leading more rest, s = List.replicate leading '/' ++ (joined more words ++ rest) ∧
      AfterSegment rest ∧ segments rest = later := by
  induction words generalizing s with
  | nil => exact absurd rfl ne
  | cons word words ih =>
      rw [List.cons_append] at h
      obtain ⟨taken, rest, rfl, all, -, -, after, hrest⟩ := segments_eq_cons_iff.mp h
      rw [eq_replicate_slash all]
      cases words with
      | nil => exact ⟨taken.length, [], rest, rfl, after, hrest⟩
      | cons next words =>
          have mem : next ∈ segments rest := by
            rw [hrest]
            exact List.mem_cons_self
          obtain ⟨leading, more, rest, rfl, after', hlater⟩ := ih (List.cons_ne_nil _ _) hrest
          cases leading with
          | zero =>
              obtain ⟨tail, htail⟩ := exists_joined_eq_append more next words
              obtain ⟨c, cs, rfl⟩ := List.exists_cons_of_ne_nil (segments_ne_nil mem)
              have slash : c = '/' := after c (by simp [htail])
              exact absurd (slash ▸ List.mem_cons_self) (slash_not_mem_segments mem)
          | succ leading =>
              refine ⟨taken.length, leading :: more, rest, ?_, after', hlater⟩
              simp [joined, List.replicate_succ]

end HttpRouting.Path
