import HttpRouting.Proofs.Pattern.Substitution

/-!
# What a template means

A template matches a path if its variables can be given values that turn its segments into those of
the path. Of all such values it binds the longest, compared from left to right.
-/

namespace HttpRouting

/-- The text of a template segment with each name in braces replaced by its value. -/
def substitute (value : String → String) (written : List Char) : List Char :=
  replaceNames (fun name => (value (String.ofList name)).toList) none written

theorem Variables.map_fst_pairs (vs : Variables) : vs.pairs.map Prod.fst = vs.names := by
  simp [Variables.pairs, Variables.names]

namespace Pattern

/-- Values for the variables, neither empty nor with a slash, that turn the segments of the template
into the segments of a path. -/
structure IsAssignment (p : Pattern) (path : String) (value : String → String) : Prop where
  values : ∀ name ∈ p.names, value name ≠ "" ∧ '/' ∉ (value name).toList
  segments_eq : (Path.segments p.template.toList).map (substitute value) =
    Path.segments path.toList

def lengths (p : Pattern) (value : String → String) : List Nat :=
  p.names.map fun name => (value name).length

theorem names_eq_map_rawNames (p : Pattern) : p.names = p.rawNames.map String.ofList := rfl

theorem isAssignment_iff_fills {p : Pattern} {path : String} {value : String → String} :
    p.IsAssignment path value ↔
      p.Fills path.toList fun name => (value (String.ofList name)).toList := by
  have hvalues : (∀ name ∈ p.names, value name ≠ "" ∧ '/' ∉ (value name).toList) ↔
      ∀ name ∈ p.rawNames, IsValue (value (String.ofList name)).toList := by
    rw [names_eq_map_rawNames, List.forall_mem_map]
    simp [IsValue]
  rw [Fills, ← hvalues, map_fill_segments]
  constructor
  · rintro ⟨values, heq⟩
    exact ⟨values, heq⟩
  · rintro ⟨values, heq⟩
    exact ⟨values, heq⟩

private theorem toList_ofList_comp (value : List Char → List Char) :
    (fun name => (String.ofList (value (String.ofList name).toList)).toList) = value := by
  funext name
  rw [String.toList_ofList, String.toList_ofList]

theorem isMatch_iff_exists_isAssignment {p : Pattern} {path : String} :
    p.isMatch path = true ↔ ∃ value, p.IsAssignment path value := by
  rw [isMatch_iff_exists_fills]
  constructor
  · rintro ⟨value, h⟩
    refine ⟨fun name => String.ofList (value name.toList), isAssignment_iff_fills.mpr ?_⟩
    rw [toList_ofList_comp]
    exact h
  · rintro ⟨value, h⟩
    exact ⟨_, isAssignment_iff_fills.mp h⟩

theorem greatest_isAssignment_of_captures {p : Pattern} {path : String} {bindings : Variables}
    (h : p.captures path = some bindings) :
    ∃ value, p.IsAssignment path value ∧
      bindings.pairs = p.names.map (fun name => (name, value name)) ∧
      ∀ other, p.IsAssignment path other → (∀ name ∈ p.names, other name = value name) ∨
        p.lengths other < p.lengths value := by
  obtain ⟨captured, hc, rfl⟩ := Option.map_eq_some_iff.mp h
  obtain ⟨value, rfl, hfills, greatest⟩ := greatest_fills_of_captures hc
  refine ⟨fun name => String.ofList (value name.toList), ?_, ?_, ?_⟩
  · rw [isAssignment_iff_fills, toList_ofList_comp]
    exact hfills
  · rw [Variables.pairs_ofPairs, names_eq_map_rawNames, List.map_map, List.map_map]
    simp [List.zip_map', Function.comp_def]
  · intro other hother
    rw [lengths, lengths, names_eq_map_rawNames, List.forall_mem_map]
    rcases greatest _ (isAssignment_iff_fills.mp hother) with heq | hlt
    · left
      intro name hname
      change other (String.ofList name) = String.ofList (value (String.ofList name).toList)
      rw [String.toList_ofList, ← heq name hname, String.ofList_toList]
    · right
      simp only [String.length_toList] at hlt
      simpa [Function.comp_def] using hlt

theorem names_of_captures {p : Pattern} {path : String} {bindings : Variables}
    (h : p.captures path = some bindings) : bindings.names = p.names := by
  obtain ⟨value, -, hpairs, -⟩ := greatest_isAssignment_of_captures h
  rw [← Variables.map_fst_pairs, hpairs, List.map_map]
  exact List.map_id _

theorem compile_eq_ok_iff {template : String} {p : Pattern} :
    compile template = .ok p ↔ p.template = template := by
  constructor
  · intro h
    unfold compile at h
    split at h
    · cases h
      rfl
    · simp at h
    · simp at h
  · rintro rfl
    exact compile_template p

end Pattern

/-- A template that compiles matches a path exactly if values can be given to its variables that
turn its segments into those of the path. Then it binds its names, each once and from left to right,
to such values, and any other such values are shorter where their lengths first differ. -/
theorem template_meaning {template : String} {p : Pattern} (h : Pattern.compile template = .ok p)
    (path : String) :
    p.template = template ∧
    (p.isMatch path = true ↔ (p.captures path).isSome = true) ∧
    (p.isMatch path = true ↔ ∃ value, p.IsAssignment path value) ∧
    ∀ bindings, p.captures path = some bindings →
      bindings.names = p.names ∧ p.names.Nodup ∧
      ∃ value, p.IsAssignment path value ∧
        bindings.pairs = p.names.map (fun name => (name, value name)) ∧
        ∀ other, p.IsAssignment path other → (∀ name ∈ p.names, other name = value name) ∨
          p.lengths other < p.lengths value := by
  refine ⟨Pattern.compile_eq_ok_iff.mp h, ?_, Pattern.isMatch_iff_exists_isAssignment, ?_⟩
  · rw [Pattern.isMatch_eq_isSome_captures]
  · intro bindings hb
    obtain ⟨value, hvalue, hpairs, greatest⟩ := Pattern.greatest_isAssignment_of_captures hb
    refine ⟨?_, p.nodup_names, value, hvalue, hpairs, greatest⟩
    rw [← Variables.map_fst_pairs, hpairs]
    simp [Function.comp_def]

/-- The first of two variables takes all that it can leave the second one without. -/
theorem template_meaning_of_pair : ∃ p : Pattern,
    Pattern.compile "/\x7ba\x7d-\x7bb\x7d" = .ok p ∧
    p.captures "1-2-3//" = some (Variables.ofPairs [("a", "1-2"), ("b", "3")]) ∧
    ∃ value, p.IsAssignment "1-2-3//" value ∧
      p.names.map (fun name => (name, value name)) = [("a", "1-2"), ("b", "3")] ∧
      ∀ other, p.IsAssignment "1-2-3//" other → (∀ name ∈ p.names, other name = value name) ∨
        p.lengths other < p.lengths value := by
  let p : Pattern := ⟨"/\x7ba\x7d-\x7bb\x7d",
    [[.variable ['a'], .char '-', .variable ['b']]], rfl⟩
  have hp : Pattern.compile "/\x7ba\x7d-\x7bb\x7d" = .ok p := Pattern.compile_template p
  have hpath : "1-2-3//".toList = ['1', '-', '2', '-', '3', '/', '/'] := by simp
  have hc : p.captures "1-2-3//" = some (Variables.ofPairs [("a", "1-2"), ("b", "3")]) := by
    rw [Pattern.captures, hpath]
    rfl
  obtain ⟨-, -, -, hbound⟩ := template_meaning hp "1-2-3//"
  obtain ⟨-, -, value, hvalue, hpairs, greatest⟩ := hbound _ hc
  rw [Variables.pairs_ofPairs] at hpairs
  exact ⟨p, hp, hc, value, hvalue, hpairs.symm, greatest⟩

end HttpRouting
