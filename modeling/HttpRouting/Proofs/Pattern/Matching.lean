import HttpRouting.Pattern.Regex

/-!
# What an expression matches

`Matches` says which texts a sequence of parts matches and what it captures there, without any
preference. The search answers exactly the texts that match, with captures of a match. Where no
repetition of slashes can leave a slash to the parts after it, the captures it answers with are the
longest ones, compared from left to right.
-/

namespace HttpRouting.Regex

/-- The parts match the whole text and capture the listed texts. -/
inductive Matches : List Part → List Char → Captures → Prop where
  | nil : Matches [] [] []
  | char (c : Char) {parts : List Part} {s : List Char} {captured : Captures} :
      Matches parts s captured → Matches (.char c :: parts) (c :: s) captured
  | slashes {taken : List Char} (all : ∀ c ∈ taken, c = '/') {parts : List Part} {s : List Char}
      {captured : Captures} :
      Matches parts s captured → Matches (.slashes :: parts) (taken ++ s) captured
  | separator {taken : List Char} (ne : taken ≠ []) (all : ∀ c ∈ taken, c = '/')
      {parts : List Part} {s : List Char} {captured : Captures} :
      Matches parts s captured → Matches (.separator :: parts) (taken ++ s) captured
  | capture {value : List Char} (ne : value ≠ []) (all : '/' ∉ value) {parts : List Part}
      {s : List Char} {captured : Captures} :
      Matches parts s captured → Matches (.variable :: parts) (value ++ s) (value :: captured)
  | belowAbsent {parts : List Part} {s : List Char} {captured : Captures} :
      Matches parts s captured → Matches (.below :: parts) s captured
  | belowPresent {taken line : List Char} (ne : taken ≠ []) (all : ∀ c ∈ taken, c = '/')
      (noFeed : '\n' ∉ line) {parts : List Part} {s : List Char} {captured : Captures} :
      Matches parts s captured → Matches (.below :: parts) (taken ++ (line ++ s)) captured

theorem matches_nil_iff {s : List Char} {captured : Captures} :
    Matches [] s captured ↔ s = [] ∧ captured = [] := by
  constructor
  · intro h
    cases h
    exact ⟨rfl, rfl⟩
  · rintro ⟨rfl, rfl⟩
    exact .nil

theorem matches_char_iff {c : Char} {parts : List Part} {s : List Char} {captured : Captures} :
    Matches (.char c :: parts) s captured ↔
      ∃ rest, s = c :: rest ∧ Matches parts rest captured := by
  constructor
  · intro h
    cases h with
    | char _ h => exact ⟨_, rfl, h⟩
  · rintro ⟨rest, rfl, h⟩
    exact .char c h

theorem matches_slashes_iff {parts : List Part} {s : List Char} {captured : Captures} :
    Matches (.slashes :: parts) s captured ↔
      ∃ taken rest, s = taken ++ rest ∧ (∀ c ∈ taken, c = '/') ∧ Matches parts rest captured := by
  constructor
  · intro h
    cases h with
    | slashes all h => exact ⟨_, _, rfl, all, h⟩
  · rintro ⟨taken, rest, rfl, all, h⟩
    exact .slashes all h

theorem matches_separator_iff {parts : List Part} {s : List Char} {captured : Captures} :
    Matches (.separator :: parts) s captured ↔
      ∃ taken rest, s = taken ++ rest ∧ taken ≠ [] ∧ (∀ c ∈ taken, c = '/') ∧
        Matches parts rest captured := by
  constructor
  · intro h
    cases h with
    | separator ne all h => exact ⟨_, _, rfl, ne, all, h⟩
  · rintro ⟨taken, rest, rfl, ne, all, h⟩
    exact .separator ne all h

theorem matches_variable_iff {parts : List Part} {s : List Char} {captured : Captures} :
    Matches (.variable :: parts) s captured ↔
      ∃ value rest more, s = value ++ rest ∧ captured = value :: more ∧ value ≠ [] ∧
        '/' ∉ value ∧ Matches parts rest more := by
  constructor
  · intro h
    cases h with
    | capture ne all h => exact ⟨_, _, _, rfl, rfl, ne, all, h⟩
  · rintro ⟨value, rest, more, rfl, rfl, ne, all, h⟩
    exact .capture ne all h

theorem Matches.length_captured {parts : List Part} {s : List Char} {captured : Captures}
    (h : Matches parts s captured) : captured.length = parts.count .variable := by
  induction h <;> simp_all

theorem search_nil : search ⟨[]⟩ = atEnd := rfl

theorem search_cons (part : Part) (parts : List Part) :
    search ⟨part :: parts⟩ = part.search (search ⟨parts⟩) := rfl

theorem oneOf_eq_some_iff {β γ : Type} {p : Char → Bool} {g : Char → β → γ} {k : Matcher β}
    {s : List Char} {found : γ} :
    oneOf p g k s = some found ↔
      ∃ c rest b, s = c :: rest ∧ p c = true ∧ k rest = some b ∧ g c b = found := by
  cases s with
  | nil => simp [oneOf]
  | cons c rest =>
      constructor
      · intro h
        by_cases hc : p c = true
        · rw [oneOf, if_pos hc] at h
          obtain ⟨b, hb, rfl⟩ := Option.map_eq_some_iff.mp h
          exact ⟨c, rest, b, rfl, hc, hb, rfl⟩
        · simp [oneOf, hc] at h
      · rintro ⟨d, more, b, heq, hd, hb, rfl⟩
        cases heq
        simp [oneOf, hd, hb]

theorem append_of_oneOf_greedy {β γ : Type} {p : Char → Bool} {g : Char → List Char × β → γ}
    {k : Matcher β} {s : List Char} {found : γ} (h : oneOf p g (greedy p k) s = some found) :
    ∃ c taken rest b, s = c :: taken ++ rest ∧ (∀ d ∈ c :: taken, p d = true) ∧
      k rest = some b ∧ g c (taken, b) = found := by
  obtain ⟨c, _, ⟨taken, b⟩, rfl, hc, hg, heq⟩ := oneOf_eq_some_iff.mp h
  obtain ⟨rest, rfl, all, hk⟩ := append_of_greedy hg
  exact ⟨c, taken, rest, b, rfl, List.forall_mem_cons.mpr ⟨hc, all⟩, hk, heq⟩

private theorem forall_eq_slash {taken : List Char} (h : ∀ c ∈ taken, (c == '/') = true) :
    ∀ c ∈ taken, c = '/' :=
  fun c hc => eq_of_beq (h c hc)

private theorem slash_not_mem {taken : List Char} (h : ∀ c ∈ taken, (c != '/') = true) :
    '/' ∉ taken :=
  fun hmem => by simpa using h '/' hmem

private theorem feed_not_mem {taken : List Char} (h : ∀ c ∈ taken, (c != '\n') = true) :
    '\n' ∉ taken :=
  fun hmem => by simpa using h '\n' hmem

private theorem forall_bne {taken : List Char} {d : Char} (h : d ∉ taken) :
    ∀ c ∈ taken, (c != d) = true := by
  intro c hc
  have hcd : c ≠ d := fun heq => h (heq ▸ hc)
  simpa using hcd

theorem matches_of_search {parts : List Part} {s : List Char} {captured : Captures}
    (h : search ⟨parts⟩ s = some captured) : Matches parts s captured := by
  induction parts generalizing s captured with
  | nil =>
      rw [search_nil] at h
      cases s with
      | nil =>
          cases h
          exact .nil
      | cons c rest => simp [atEnd] at h
  | cons part parts ih =>
      rw [search_cons] at h
      cases part with
      | char c =>
          obtain ⟨d, rest, b, rfl, hd, hk, rfl⟩ := oneOf_eq_some_iff.mp h
          rw [eq_of_beq hd]
          exact .char c (ih hk)
      | slashes =>
          obtain ⟨⟨taken, b⟩, hg, rfl⟩ := Option.map_eq_some_iff.mp h
          obtain ⟨rest, rfl, all, hk⟩ := append_of_greedy hg
          exact .slashes (forall_eq_slash all) (ih hk)
      | separator =>
          obtain ⟨c, taken, rest, b, rfl, all, hk, rfl⟩ := append_of_oneOf_greedy h
          exact .separator (List.cons_ne_nil c taken) (forall_eq_slash all) (ih hk)
      | «variable» =>
          obtain ⟨c, taken, rest, b, rfl, all, hk, rfl⟩ := append_of_oneOf_greedy h
          exact .capture (List.cons_ne_nil c taken) (slash_not_mem all) (ih hk)
      | below =>
          rcases Option.or_eq_some_iff.mp h with h | ⟨-, h⟩
          · obtain ⟨c, taken, _, ⟨line, b⟩, rfl, all, hl, rfl⟩ := append_of_oneOf_greedy h
            obtain ⟨rest, rfl, feed, hk⟩ := append_of_greedy hl
            exact .belowPresent (List.cons_ne_nil c taken) (forall_eq_slash all) (feed_not_mem feed)
              (ih hk)
          · exact .belowAbsent (ih h)

private theorem isSome_greedy {β : Type} {p : Char → Bool} {k : Matcher β}
    {taken rest : List Char} (all : ∀ c ∈ taken, p c = true) (hk : (k rest).isSome) :
    (greedy p k (taken ++ rest)).isSome := by
  obtain ⟨more, b, h⟩ := greedy_append all hk
  simp [h]

private theorem isSome_oneOf_greedy {β γ : Type} {p : Char → Bool} {g : Char → List Char × β → γ}
    {k : Matcher β} {taken rest : List Char} (ne : taken ≠ []) (all : ∀ c ∈ taken, p c = true)
    (hk : (k rest).isSome) : (oneOf p g (greedy p k) (taken ++ rest)).isSome := by
  cases taken with
  | nil => exact absurd rfl ne
  | cons c taken =>
      rw [List.forall_mem_cons] at all
      have hg := isSome_greedy all.2 hk
      simpa [oneOf, all.1] using hg

theorem Matches.isSome_search {parts : List Part} {s : List Char} {captured : Captures}
    (h : Matches parts s captured) : (search ⟨parts⟩ s).isSome := by
  induction h with
  | nil => rfl
  | char c h ih => simpa [search_cons, Part.search, oneOf] using ih
  | slashes all h ih =>
      have hg := isSome_greedy (p := (· == '/')) (by simpa using all) ih
      simpa [search_cons, Part.search] using hg
  | separator ne all h ih => exact isSome_oneOf_greedy ne (by simpa using all) ih
  | capture ne all h ih => exact isSome_oneOf_greedy ne (forall_bne all) ih
  | belowAbsent h ih =>
      rw [search_cons, Part.search, Option.isSome_or, ih, Bool.or_true]
  | belowPresent ne all noFeed h ih =>
      have hl := isSome_greedy (forall_bne noFeed) ih
      rw [search_cons, Part.search, Option.isSome_or]
      have hg := isSome_oneOf_greedy (g := fun _ found => found.2.2) ne
        (p := (· == '/')) (by simpa using all) hl
      rw [hg, Bool.true_or]

/-- No repetition of slashes can leave a slash to the parts after it, so that the number of slashes
it takes is settled by the text. -/
def Settled : List Part → Prop
  | [] => True
  | .slashes :: parts => (∀ s captured, ¬ Matches parts ('/' :: s) captured) ∧ Settled parts
  | .separator :: parts => (∀ s captured, ¬ Matches parts ('/' :: s) captured) ∧ Settled parts
  | .below :: _ => False
  | .char _ :: parts => Settled parts
  | .variable :: parts => Settled parts

private theorem settled_rest_eq {parts : List Part}
    (closed : ∀ s captured, ¬ Matches parts ('/' :: s) captured) {taken other : List Char}
    {rest rest' : List Char} (heq : taken ++ rest = other ++ rest') (all : ∀ c ∈ taken, c = '/')
    (all' : ∀ c ∈ other, c = '/') {captured captured' : Captures} (h : Matches parts rest captured)
    (h' : Matches parts rest' captured') : rest = rest' := by
  rcases List.append_eq_append_iff.mp heq with ⟨more, rfl, rfl⟩ | ⟨more, rfl, rfl⟩
  · cases more with
    | nil => rfl
    | cons c more =>
        rw [all' c (by simp)] at h
        exact absurd h (closed _ _)
  · cases more with
    | nil => rfl
    | cons c more =>
        rw [all c (by simp)] at h'
        exact absurd h' (closed _ _)

/-- The captures of the search are the longest, compared from left to right: those of any other
match are shorter where they first differ. -/
theorem eq_or_lengths_lt_of_search {parts : List Part} (settled : Settled parts) {s : List Char}
    {captured other : Captures} (h : search ⟨parts⟩ s = some captured)
    (ho : Matches parts s other) :
    other = captured ∨ other.map List.length < captured.map List.length := by
  induction parts generalizing s captured other with
  | nil =>
      cases ho
      cases h
      exact .inl rfl
  | cons part parts ih =>
      rw [search_cons] at h
      cases part with
      | char c =>
          obtain ⟨d, rest, b, rfl, hd, hk, rfl⟩ := oneOf_eq_some_iff.mp h
          obtain ⟨rest', heq, ho⟩ := matches_char_iff.mp ho
          cases heq
          exact ih settled hk ho
      | slashes =>
          obtain ⟨⟨taken, b⟩, hg, rfl⟩ := Option.map_eq_some_iff.mp h
          obtain ⟨rest, rfl, all, hk⟩ := append_of_greedy hg
          obtain ⟨taken', rest', heq, all', ho⟩ := matches_slashes_iff.mp ho
          obtain rfl := settled_rest_eq settled.1 heq (forall_eq_slash all) all'
            (matches_of_search hk) ho
          exact ih settled.2 hk ho
      | separator =>
          obtain ⟨c, taken, rest, b, rfl, all, hk, rfl⟩ := append_of_oneOf_greedy h
          obtain ⟨taken', rest', heq, -, all', ho⟩ := matches_separator_iff.mp ho
          obtain rfl := settled_rest_eq settled.1 heq (forall_eq_slash all) all'
            (matches_of_search hk) ho
          exact ih settled.2 hk ho
      | «variable» =>
          obtain ⟨c, rest, ⟨taken, b⟩, rfl, hc, hg, rfl⟩ := oneOf_eq_some_iff.mp h
          obtain ⟨value, rest', more, heq, rfl, ne, noSlash, hm⟩ := matches_variable_iff.mp ho
          cases value with
          | nil => exact absurd rfl ne
          | cons d value =>
              rw [List.cons_append, List.cons.injEq] at heq
              obtain ⟨rfl, rfl⟩ := heq
              rw [List.mem_cons, not_or] at noSlash
              -- the repetition keeps at least what the other match captures
              obtain ⟨extra, b', hext⟩ := greedy_append (forall_bne noSlash.2) hm.isSome_search
              obtain ⟨htaken, -⟩ := Prod.mk.inj (Option.some.inj (hg.symm.trans hext))
              cases extra with
              | nil =>
                  rw [List.append_nil] at htaken
                  obtain ⟨rest, heq, -, hk⟩ := append_of_greedy hg
                  rw [htaken, List.append_cancel_left_eq] at heq
                  rw [← heq] at hk
                  rcases ih settled hk hm with rfl | hlt
                  · exact .inl (by rw [htaken])
                  · right
                    simpa [htaken] using hlt
              | cons e extra =>
                  right
                  have hlen : (c :: value).length < (c :: taken).length := by
                    simp [htaken]
                  rw [List.map_cons, List.map_cons, List.cons_lt_cons_iff]
                  exact .inl hlen
      | below => exact absurd settled id

theorem isMatch_iff {r : Regex} {s : List Char} :
    r.isMatch s = true ↔ ∃ captured, Matches r.parts s captured := by
  rw [isMatch, captures_eq_search, Option.isSome_iff_exists]
  constructor
  · rintro ⟨captured, h⟩
    exact ⟨captured, matches_of_search h⟩
  · rintro ⟨captured, h⟩
    exact Option.isSome_iff_exists.mp h.isSome_search

end HttpRouting.Regex
