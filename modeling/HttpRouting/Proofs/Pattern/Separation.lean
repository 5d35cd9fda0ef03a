import HttpRouting.Proofs.Pattern.Meaning

/-!
# Variables with a literal between them

Where a literal stands between any two consecutive variables of a segment, and neither the rest of
that literal nor the value behind it repeats its first character, no variable can take more than its
value: the literal behind it would have to begin later, at the earliest where the next one begins,
and so would every literal after it, beyond the end of the segment. The values that are bound are
therefore the ones that were filled in.
-/

namespace HttpRouting

namespace Segment

def Leads (s : Segment) (literal name : List Char) : Prop :=
  ∃ after, s = literal.map .char ++ .variable name :: after

/-- Two consecutive variables, the literal between them, and the name of the second one. -/
def Between (s : Segment) (literal name : List Char) : Prop :=
  ∃ before previous rest, s = before ++ .variable previous :: rest ∧ Leads rest literal name

/-- Between consecutive variables stands a literal that does not repeat its first character. -/
def Separated (s : Segment) : Prop :=
  ∀ literal name, s.Between literal name → ∃ c rest, literal = c :: rest ∧ c ∉ rest

/-- No value holds the first character of the literal between its variable and the previous one. -/
def Spares (value : List Char → List Char) (s : Segment) : Prop :=
  ∀ c rest name, s.Between (c :: rest) name → c ∉ value name

/-- The literals between consecutive variables, each with the name of the second one; the first
argument holds what was read since a variable, if there was one. -/
def gaps : Option (List Char) → Segment → List (List Char × List Char)
  | _, [] => []
  | pending, .char c :: s => gaps (pending.map (· ++ [c])) s
  | none, .variable _ :: s => gaps (some []) s
  | some literal, .variable name :: s => (literal, name) :: gaps (some []) s

theorem not_leads_nil (literal name : List Char) : ¬ Leads [] literal name := by
  rintro ⟨after, heq⟩
  simp at heq

theorem leads_char_cons_iff {c : Char} {s : Segment} {literal name : List Char} :
    Leads (.char c :: s) literal name ↔ ∃ rest, literal = c :: rest ∧ Leads s rest name := by
  constructor
  · rintro ⟨after, heq⟩
    cases literal with
    | nil => simp at heq
    | cons d rest =>
        obtain ⟨hc, rfl⟩ := List.cons.inj heq
        cases hc
        exact ⟨rest, rfl, after, rfl⟩
  · rintro ⟨rest, rfl, after, rfl⟩
    exact ⟨after, rfl⟩

theorem leads_variable_cons_iff {previous : List Char} {s : Segment} {literal name : List Char} :
    Leads (.variable previous :: s) literal name ↔ literal = [] ∧ name = previous := by
  constructor
  · rintro ⟨after, heq⟩
    cases literal with
    | nil =>
        obtain ⟨hname, -⟩ := List.cons.inj heq
        cases hname
        exact ⟨rfl, rfl⟩
    | cons d rest => simp at heq
  · rintro ⟨rfl, rfl⟩
    exact ⟨s, rfl⟩

theorem not_between_nil (literal name : List Char) : ¬ Between [] literal name := by
  rintro ⟨before, previous, rest, heq, -⟩
  simp at heq

theorem between_cons_iff {p : Piece} {s : Segment} {literal name : List Char} :
    Between (p :: s) literal name ↔
      s.Between literal name ∨ ∃ previous, p = .variable previous ∧ s.Leads literal name := by
  constructor
  · rintro ⟨before, previous, rest, heq, leads⟩
    cases before with
    | nil =>
        obtain ⟨rfl, rfl⟩ := List.cons.inj heq
        exact .inr ⟨previous, rfl, leads⟩
    | cons q before =>
        obtain ⟨rfl, rfl⟩ := List.cons.inj heq
        exact .inl ⟨before, previous, rest, rfl, leads⟩
  · rintro (⟨before, previous, rest, rfl, leads⟩ | ⟨previous, rfl, leads⟩)
    · exact ⟨p :: before, previous, rest, rfl, leads⟩
    · exact ⟨[], previous, s, rfl, leads⟩

theorem mem_gaps_iff {pending : Option (List Char)} {s : Segment} {literal name : List Char} :
    (literal, name) ∈ gaps pending s ↔ s.Between literal name ∨
      ∃ read more, pending = some read ∧ literal = read ++ more ∧ s.Leads more name := by
  induction s generalizing pending with
  | nil => simp [gaps, not_between_nil, not_leads_nil]
  | cons p s ih =>
      cases p with
      | char c =>
          rw [gaps, ih, between_cons_iff]
          cases pending with
          | none => simp
          | some read =>
              have shift (more : List Char) : read ++ [c] ++ more = read ++ c :: more := by simp
              simp only [Option.map_some, Option.some.injEq, leads_char_cons_iff]
              grind
      | «variable» previous =>
          cases pending with
          | none =>
              rw [gaps, ih, between_cons_iff]
              simp
          | some read =>
              rw [gaps, List.mem_cons, ih, between_cons_iff]
              simp only [leads_variable_cons_iff]
              simp only [Prod.mk.injEq, Option.some.injEq]
              constructor
              · rintro (⟨rfl, rfl⟩ | between | ⟨_, more, rfl, rfl, leads⟩)
                · exact .inr ⟨literal, [], rfl, (List.append_nil literal).symm, rfl, rfl⟩
                · exact .inl (.inl between)
                · exact .inl (.inr ⟨previous, rfl, leads⟩)
              · rintro ((between | ⟨_, -, leads⟩) | ⟨_, _, rfl, rfl, rfl, rfl⟩)
                · exact .inr (.inl between)
                · exact .inr (.inr ⟨[], literal, rfl, rfl, leads⟩)
                · exact .inl ⟨List.append_nil read, rfl⟩

theorem between_iff_mem_gaps {s : Segment} {literal name : List Char} :
    s.Between literal name ↔ (literal, name) ∈ gaps none s := by
  rw [mem_gaps_iff]
  simp

theorem Separated.of_cons {p : Piece} {s : Segment} (h : Separated (p :: s)) : Separated s :=
  fun literal name between => h literal name (between_cons_iff.mpr (.inl between))

theorem Spares.of_cons {value : List Char → List Char} {p : Piece} {s : Segment}
    (h : Spares value (p :: s)) : Spares value s :=
  fun c rest name between => h c rest name (between_cons_iff.mpr (.inl between))

private theorem exists_append_of_cons_append {c : Char} {word rest extra tail : List Char}
    (absent : c ∉ word) (ne : extra ≠ []) (heq : c :: word ++ rest = extra ++ c :: tail) :
    ∃ more, rest = more ++ c :: tail := by
  rcases List.append_eq_append_iff.mp heq with ⟨more, rfl, rfl⟩ | ⟨more, hword, hrest⟩
  · exact ⟨more, rfl⟩
  · cases more with
    | nil =>
        rw [List.nil_append] at hrest
        exact ⟨[], hrest.symm⟩
    | cons d more =>
        obtain ⟨rfl, -⟩ := List.cons.inj hrest
        obtain ⟨e, es, rfl⟩ := List.exists_cons_of_ne_nil ne
        obtain ⟨-, rfl⟩ := List.cons.inj hword
        exact absurd (by simp) absent

/-- What follows a variable cannot be read again from a later place on: each literal would begin
where the next one stands, and the last one beyond the end. The pending literal is what was read
since the variable. -/
theorem append_fill_ne {value other : List Char → List Char} {s : Segment}
    (pending extra : List Char)
    (separated : ∀ gap ∈ gaps (some pending) s, ∃ c rest, gap.1 = c :: rest ∧ c ∉ rest)
    (spares : ∀ gap ∈ gaps (some pending) s, ∀ c ∈ gap.1.head?, c ∉ value gap.2)
    (ne : extra ≠ []) :
    pending ++ fill value s ≠ extra ++ (pending ++ fill other s) := by
  induction s generalizing pending extra with
  | nil =>
      intro heq
      rw [fill_nil, fill_nil, List.append_nil] at heq
      exact ne (List.append_left_eq_self.mp heq.symm)
  | cons p s ih =>
      cases p with
      | char c =>
          rw [gaps] at separated spares
          have later := ih (pending ++ [c]) extra separated spares ne
          simpa [Piece.fill] using later
      | «variable» name =>
          rw [gaps, List.forall_mem_cons] at separated spares
          obtain ⟨⟨c, rest, hpending, absent⟩, separated⟩ := separated
          obtain ⟨spared, spares⟩ := spares
          dsimp only at hpending
          subst hpending
          have absent' : c ∉ rest ++ value name := by
            rw [List.mem_append, not_or]
            exact ⟨absent, spared c rfl⟩
          intro heq
          rw [fill_cons, fill_cons, Piece.fill, Piece.fill, ← List.append_assoc] at heq
          obtain ⟨more, hmore⟩ := exists_append_of_cons_append absent' ne heq
          refine ih [] (more ++ c :: (rest ++ other name)) separated spares (by simp) ?_
          simpa using hmore

theorem separated_iff {s : Segment} :
    s.Separated ↔ ∀ gap ∈ gaps none s, ∃ c rest, gap.1 = c :: rest ∧ c ∉ rest := by
  rw [Prod.forall]
  simp only [Separated, between_iff_mem_gaps]

theorem spares_iff {value : List Char → List Char} {s : Segment} :
    s.Spares value ↔ ∀ gap ∈ gaps none s, ∀ c ∈ gap.1.head?, c ∉ value gap.2 := by
  rw [Prod.forall]
  simp only [Spares, between_iff_mem_gaps]
  constructor
  · intro h literal name hgap c hc
    obtain ⟨rest, rfl⟩ := List.head?_eq_some_iff.mp hc
    exact h c rest name hgap
  · intro h c rest name hgap
    exact h (c :: rest) name hgap c rfl

variable {value other : List Char → List Char}

def lengths (value : List Char → List Char) (s : Segment) : List Nat :=
  s.names.map fun name => (value name).length

theorem lt_of_lengths_append_lt {s : Segment} (separated : s.Separated) (spares : s.Spares value)
    (heq : s.fill value = s.fill other) {later later' : List Nat}
    (hlt : s.lengths value ++ later < s.lengths other ++ later') : later < later' := by
  induction s with
  | nil => exact hlt
  | cons p s ih =>
      rw [fill_cons, fill_cons] at heq
      cases p with
      | char c => exact ih separated.of_cons spares.of_cons (List.append_cancel_left heq) hlt
      | «variable» name =>
          rw [Piece.fill, Piece.fill] at heq
          rcases List.cons_lt_cons_iff.mp hlt with shorter | ⟨same, hlt⟩
          · replace shorter : (value name).length < (other name).length := shorter
            exfalso
            obtain ⟨extra, hother⟩ := List.prefix_of_prefix_length_le
              (List.prefix_append (value name) _) (heq ▸ List.prefix_append (other name) _)
              (Nat.le_of_lt shorter)
            rw [← hother, List.append_assoc] at heq
            have ne : extra ≠ [] := by
              rintro rfl
              rw [← hother, List.append_nil] at shorter
              exact Nat.lt_irrefl _ shorter
            exact append_fill_ne [] extra (separated_iff.mp separated) (spares_iff.mp spares) ne
              (List.append_cancel_left heq)
          · obtain ⟨-, hfill⟩ := List.append_inj heq same
            exact ih separated.of_cons spares.of_cons hfill hlt

theorem not_lengths_lt {segments : List Segment} (separated : ∀ s ∈ segments, s.Separated)
    (spares : ∀ s ∈ segments, s.Spares value)
    (heq : segments.map (fill value) = segments.map (fill other)) :
    ¬ segments.flatMap (lengths value) < segments.flatMap (lengths other) := by
  induction segments with
  | nil => exact List.not_lt_nil []
  | cons s segments ih =>
      rw [List.forall_mem_cons] at separated spares
      obtain ⟨hs, hrest⟩ := List.cons.inj heq
      intro hlt
      exact ih separated.2 spares.2 hrest (lt_of_lengths_append_lt separated.1 spares.1 hs hlt)

end Segment

namespace Pattern

theorem map_length_rawNames (p : Pattern) (value : List Char → List Char) :
    p.rawNames.map (fun name => (value name).length) =
      p.segments.flatMap (Segment.lengths value) := by
  rw [rawNames, List.map_flatMap]
  rfl

theorem captures_of_isAssignment {p : Pattern} {path : String} {value : String → String}
    (assignment : p.IsAssignment path value) (separated : ∀ s ∈ p.segments, s.Separated)
    (spares : ∀ s ∈ p.segments, s.Spares fun name => (value (String.ofList name)).toList) :
    ∃ bindings, p.captures path = some bindings ∧
      bindings.pairs = p.names.map fun name => (name, value name) := by
  have hmatch : p.isMatch path = true :=
    isMatch_iff_exists_isAssignment.mpr ⟨value, assignment⟩
  rw [isMatch_eq_isSome_captures, Option.isSome_iff_exists] at hmatch
  obtain ⟨bindings, hcaptures⟩ := hmatch
  obtain ⟨found, hfound, hpairs, greatest⟩ := greatest_isAssignment_of_captures hcaptures
  refine ⟨bindings, hcaptures, ?_⟩
  rcases greatest value assignment with same | shorter
  · rw [hpairs]
    apply List.map_congr_left
    intro name hname
    rw [same name hname]
  · exfalso
    have hfill := (isAssignment_iff_fills.mp assignment).2.trans
      (isAssignment_iff_fills.mp hfound).2.symm
    apply Segment.not_lengths_lt separated spares hfill
    rw [← map_length_rawNames, ← map_length_rawNames]
    simpa [lengths, names_eq_map_rawNames, Function.comp_def, String.length_toList] using shorter

end Pattern

end HttpRouting
