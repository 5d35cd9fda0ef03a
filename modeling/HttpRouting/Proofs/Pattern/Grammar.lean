import HttpRouting.Proofs.Pattern.Meaning
import Mathlib.Data.List.Induction
import Mathlib.Data.List.Nodup

/-!
# The grammar of templates

A template can be read if each of its segments is made of characters other than braces and of names
in braces, and no name stands twice in the template. Otherwise there is a leftmost brace that cannot
be read after everything before it was read, and what is wrong with this brace is reported.
-/

namespace HttpRouting

def IsLetter (c : Char) : Prop := ('a' ≤ c ∧ c ≤ 'z') ∨ ('A' ≤ c ∧ c ≤ 'Z')

def IsDigit (c : Char) : Prop := '0' ≤ c ∧ c ≤ '9'

def IsName : List Char → Prop
  | [] => False
  | c :: cs => IsLetter c ∧ ∀ d ∈ cs, IsLetter d ∨ IsDigit d ∨ d = '_'

theorem isAlpha_iff (c : Char) : c.isAlpha = true ↔ IsLetter c := by
  have upper : c.isUpper = true ↔ 'A' ≤ c ∧ c ≤ 'Z' := decide_eq_true_iff
  have lower : c.isLower = true ↔ 'a' ≤ c ∧ c ≤ 'z' :=
    Bool.and_eq_true_iff.trans (and_congr decide_eq_true_iff decide_eq_true_iff)
  rw [IsLetter, or_comm, ← upper, ← lower]
  exact Bool.or_eq_true_iff

theorem isDigit_iff (c : Char) : c.isDigit = true ↔ IsDigit c := by
  simp only [Char.isDigit, IsDigit, Bool.and_eq_true, decide_eq_true_eq]
  rfl

theorem isIdentifier_iff (cs : List Char) : isIdentifier cs = true ↔ IsName cs := by
  cases cs with
  | nil => simp [isIdentifier, IsName]
  | cons c cs =>
      simp [isIdentifier, IsName, Char.isAlphanum, isAlpha_iff, isDigit_iff, or_assoc]

theorem IsName.brace_not_mem {name : List Char} (h : IsName name) : '\x7d' ∉ name := by
  have letter : ¬ IsLetter '\x7d' := by simp [IsLetter]
  have digit : ¬ IsDigit '\x7d' := by simp [IsDigit]
  cases name with
  | nil => exact List.not_mem_nil
  | cons c cs =>
      intro mem
      rcases List.mem_cons.mp mem with rfl | mem
      · exact letter h.1
      · rcases h.2 _ mem with isLetter | isDigit | underscore
        · exact letter isLetter
        · exact digit isDigit
        · exact absurd underscore (by decide)

def Piece.IsLegal : Piece → Prop
  | .char c => c ≠ '\x7b' ∧ c ≠ '\x7d'
  | .variable name => IsName name

/-- A concatenation of characters other than braces and of names in braces. -/
def Segment.IsLegal (s : Segment) : Prop := ∀ piece ∈ s, piece.IsLegal

def namesOf (segments : List Segment) : List (List Char) := segments.flatMap Segment.names

/-- What the texts of segments are read as: legal segments in which no name stands twice. -/
structure IsReading (written : List (List Char)) (segments : List Segment) : Prop where
  text : segments.map Segment.text = written
  legal : ∀ s ∈ segments, s.IsLegal
  distinct : (namesOf segments).Nodup

/-- What is wrong with the brace that a text begins with. The text is the rest of the segment
`whole`, and `seen` are the names before it. -/
inductive BadBrace (whole : List Char) (seen : List (List Char)) : List Char → TemplateFault → Prop
    where
  | closing (rest : List Char) : BadBrace whole seen ('\x7d' :: rest) (.illegalVariable whole)
  | unclosed {rest : List Char} (unclosed : '\x7d' ∉ rest) :
      BadBrace whole seen ('\x7b' :: rest) (.illegalVariable ('\x7b' :: rest))
  | noName {inside : List Char} (first : '\x7d' ∉ inside) (noName : ¬ IsName inside)
      (rest : List Char) : BadBrace whole seen ('\x7b' :: (inside ++ '\x7d' :: rest))
        (.illegalVariable ('\x7b' :: inside ++ ['\x7d']))
  | repeated {inside : List Char} (name : IsName inside) (mem : inside ∈ seen)
      (rest : List Char) :
      BadBrace whole seen ('\x7b' :: (inside ++ '\x7d' :: rest)) (.duplicateVariable inside)

/-- The leftmost brace that cannot be read in the texts of segments: the segments before its own are
read, and so is its own segment up to it. -/
inductive Faulty (written : List (List Char)) : TemplateFault → Prop where
  | brace {before : List Segment} {read : Segment} {rest : List Char} {after : List (List Char)}
      {fault : TemplateFault}
      (text : before.map Segment.text ++ (read.text ++ rest) :: after = written)
      (legal : ∀ s ∈ before ++ [read], s.IsLegal)
      (distinct : (namesOf (before ++ [read])).Nodup)
      (bad : BadBrace (read.text ++ rest) (namesOf (before ++ [read])) rest fault) :
      Faulty written fault

def TemplateFault.report (template : String) : TemplateFault → RegistrationError
  | .illegalVariable text => .illegalVariable (String.ofList text)
  | .duplicateVariable name => .duplicateVariable (String.ofList name) template

section Segment

variable {whole : List Char} {seen : List (List Char)}

theorem readSegment_inside (read : List Char) {inside : List Char} (unclosed : '\x7d' ∉ inside)
    (rest : List Char) : readSegment whole seen (some read) (inside ++ rest) =
      readSegment whole seen (some (read ++ inside)) rest := by
  induction inside generalizing read with
  | nil => rw [List.nil_append, List.append_nil]
  | cons c inside ih =>
      rw [List.mem_cons, not_or] at unclosed
      rw [List.cons_append, readSegment, if_pos (Ne.symm unclosed.1), ih _ unclosed.2,
        List.append_assoc, List.singleton_append]

theorem readSegment_brace {inside : List Char} (first : '\x7d' ∉ inside) (rest : List Char) :
    readSegment whole seen none ('\x7b' :: (inside ++ '\x7d' :: rest)) =
      readSegment whole seen (some inside) ('\x7d' :: rest) := by
  rw [readSegment, if_pos rfl, readSegment_inside [] first, List.nil_append]

theorem readSegment_char {c : Char} (legal : (Piece.char c).IsLegal) (cs : List Char) :
    readSegment whole seen none (c :: cs) =
      (readSegment whole seen none cs).map (.char c :: ·) := by
  rw [readSegment, if_neg legal.1, if_neg legal.2]

theorem readSegment_variable {name : List Char} (isName : IsName name) (new : name ∉ seen)
    (rest : List Char) : readSegment whole seen none ('\x7b' :: (name ++ '\x7d' :: rest)) =
      (readSegment whole (seen ++ [name]) none rest).map (.variable name :: ·) := by
  have identifier : isIdentifier name = true := (isIdentifier_iff name).mpr isName
  rw [readSegment_brace isName.brace_not_mem, readSegment]
  simp [identifier, new]

theorem readSegment_of_badBrace {cs : List Char} {fault : TemplateFault}
    (bad : BadBrace whole seen cs fault) : readSegment whole seen none cs = .error fault := by
  cases bad with
  | closing rest => simp [readSegment]
  | @unclosed rest unclosed =>
      have taken : readSegment whole seen (some []) rest =
          readSegment whole seen (some rest) [] := by
        simpa using readSegment_inside [] unclosed []
      rw [readSegment, if_pos rfl, taken, readSegment]
  | @noName inside first noName rest =>
      have identifier : isIdentifier inside = false := by
        rw [← Bool.not_eq_true, isIdentifier_iff]
        exact noName
      rw [readSegment_brace first, readSegment]
      simp [identifier]
  | @repeated inside name mem rest =>
      have identifier : isIdentifier inside = true := (isIdentifier_iff inside).mpr name
      rw [readSegment_brace name.brace_not_mem, readSegment]
      simp [identifier, mem]

/-- Legal pieces with new names are read, and then what comes after them. -/
theorem readSegment_text_append (whole : List Char) {s : Segment} (legal : s.IsLegal)
    (new : (seen ++ s.names).Nodup) (rest : List Char) :
    readSegment whole seen none (s.text ++ rest) =
      (readSegment whole (seen ++ s.names) none rest).map (s ++ ·) := by
  induction s generalizing seen with
  | nil =>
      rw [Segment.text_nil, List.nil_append, Segment.names_nil, List.append_nil]
      cases readSegment whole seen none rest <;> rfl
  | cons piece s ih =>
      obtain ⟨own, others⟩ := List.forall_mem_cons.mp legal
      cases piece with
      | char c =>
          change readSegment whole seen none (c :: (Segment.text s ++ rest)) = _
          rw [readSegment_char own, ih others new, Segment.names_char_cons]
          cases readSegment whole (seen ++ Segment.names s) none rest <;> rfl
      | «variable» name =>
          have regroup : seen ++ name :: Segment.names s = seen ++ [name] ++ Segment.names s := by
            simp
          have written : Segment.text (.variable name :: s) ++ rest =
              '\x7b' :: (name ++ '\x7d' :: (Segment.text s ++ rest)) := by simp [Piece.text]
          rw [Segment.names_variable_cons] at new ⊢
          have fresh : name ∉ seen := by
            intro mem
            exact (List.nodup_append.mp new).2.2 name mem name List.mem_cons_self rfl
          rw [regroup] at new ⊢
          rw [written, readSegment_variable own fresh, ih others new]
          cases readSegment whole (seen ++ [name] ++ Segment.names s) none rest <;> rfl

theorem readSegment_text (whole : List Char) {s : Segment} (legal : s.IsLegal)
    (new : (seen ++ s.names).Nodup) : readSegment whole seen none s.text = .ok s := by
  have read := readSegment_text_append whole legal new []
  rw [List.append_nil] at read
  rw [read, readSegment, Except.map, List.append_nil]

theorem exists_badBrace_or_name (whole : List Char) (seen : List (List Char)) (cs : List Char) :
    (∃ fault, BadBrace whole seen ('\x7b' :: cs) fault) ∨
      ∃ name rest, cs = name ++ '\x7d' :: rest ∧ IsName name ∧ name ∉ seen := by
  by_cases unclosed : '\x7d' ∉ cs
  · exact .inl ⟨_, .unclosed unclosed⟩
  · obtain ⟨inside, rest, rfl, first⟩ :=
      List.eq_append_cons_of_mem (Decidable.not_not.mp unclosed)
    by_cases name : IsName inside
    · by_cases mem : inside ∈ seen
      · exact .inl ⟨_, .repeated name mem rest⟩
      · exact .inr ⟨inside, rest, rfl, name, mem⟩
    · exact .inl ⟨_, .noName first name rest⟩

/-- Every text begins with legal pieces with new names that leave nothing or a bad brace. -/
theorem exists_text_append (whole : List Char) (nodup : seen.Nodup) (cs : List Char) :
    ∃ (s : Segment) (rest : List Char), cs = s.text ++ rest ∧ s.IsLegal ∧
      (seen ++ s.names).Nodup ∧
      (rest = [] ∨ ∃ fault, BadBrace whole (seen ++ s.names) rest fault) := by
  induction hlen : cs.length using Nat.strongRecOn generalizing seen cs with
  | ind n ih =>
      have stop {rest : List Char} (h : rest = [] ∨ ∃ fault, BadBrace whole seen rest fault) :
          ∃ (s : Segment) (rest' : List Char), rest = s.text ++ rest' ∧ s.IsLegal ∧
            (seen ++ s.names).Nodup ∧
            (rest' = [] ∨ ∃ fault, BadBrace whole (seen ++ s.names) rest' fault) := by
        refine ⟨[], rest, rfl, List.forall_mem_nil _, ?_, ?_⟩
        · rwa [Segment.names_nil, List.append_nil]
        · rwa [Segment.names_nil, List.append_nil]
      cases cs with
      | nil => exact stop (.inl rfl)
      | cons c cs =>
          rw [List.length_cons] at hlen
          by_cases closing : c = '\x7d'
          · subst closing
            exact stop (.inr ⟨_, .closing cs⟩)
          by_cases opening : c = '\x7b'
          · subst opening
            rcases exists_badBrace_or_name whole seen cs with bad | ⟨name, rest, rfl, isName, new⟩
            · exact stop (.inr bad)
            · have extended : (seen ++ [name]).Nodup :=
                List.nodup_append_comm.mp (List.nodup_cons.mpr ⟨new, nodup⟩)
              rw [List.length_append, List.length_cons] at hlen
              obtain ⟨s, rest', rfl, legal, distinct, stuck⟩ := ih _ (by omega) extended rest rfl
              refine ⟨.variable name :: s, rest', ?_, ?_, ?_, ?_⟩
              · simp [Piece.text]
              · exact List.forall_mem_cons.mpr ⟨isName, legal⟩
              · simpa using distinct
              · simpa using stuck
          · obtain ⟨s, rest, rfl, legal, distinct, stuck⟩ := ih _ (by omega) nodup cs rfl
            refine ⟨.char c :: s, rest, rfl, ?_, distinct, stuck⟩
            exact List.forall_mem_cons.mpr ⟨⟨opening, closing⟩, legal⟩

end Segment

theorem namesOf_cons (s : Segment) (segments : List Segment) :
    namesOf (s :: segments) = s.names ++ namesOf segments := rfl

theorem namesOf_append_singleton (segments : List Segment) (s : Segment) :
    namesOf (segments ++ [s]) = namesOf segments ++ s.names := by simp [namesOf]

theorem readSegments_text_append {seen : List (List Char)} {segments : List Segment}
    (legal : ∀ s ∈ segments, s.IsLegal) (new : (seen ++ namesOf segments).Nodup)
    (rest : List (List Char)) : readSegments seen (segments.map Segment.text ++ rest) =
      (readSegments (seen ++ namesOf segments) rest).map (segments ++ ·) := by
  induction segments generalizing seen with
  | nil =>
      rw [List.map_nil, List.nil_append, namesOf, List.flatMap_nil, List.append_nil]
      cases readSegments seen rest <;> rfl
  | cons s segments ih =>
      obtain ⟨own, others⟩ := List.forall_mem_cons.mp legal
      rw [namesOf_cons, ← List.append_assoc] at new ⊢
      have first := readSegment_text s.text own (List.nodup_append.mp new).1
      rw [List.map_cons, List.cons_append, readSegments, first]
      dsimp only
      rw [ih others new]
      cases readSegments (seen ++ s.names ++ namesOf segments) rest <;> rfl

theorem readSegments_of_isReading {written : List (List Char)} {segments : List Segment}
    (reading : IsReading written segments) : readSegments [] written = .ok segments := by
  have read : readSegments [] (segments.map Segment.text ++ []) = _ :=
    readSegments_text_append reading.legal reading.distinct []
  rw [List.append_nil, reading.text] at read
  rw [read, readSegments, Except.map, List.append_nil]

theorem readSegments_of_faulty {written : List (List Char)} {fault : TemplateFault}
    (faulty : Faulty written fault) : readSegments [] written = .error fault := by
  cases faulty with
  | @brace before read rest after _ text legal distinct bad =>
      rw [List.forall_mem_append] at legal
      rw [namesOf_append_singleton] at distinct bad
      have own := readSegment_text_append (read.text ++ rest)
        (legal.2 read (List.mem_singleton.mpr rfl)) distinct rest
      rw [readSegment_of_badBrace bad, Except.map] at own
      rw [← text, readSegments_text_append legal.1 (List.nodup_append.mp distinct).1,
        List.nil_append, readSegments, own]
      rfl

theorem exists_isReading_or_faulty (written : List (List Char)) :
    (∃ segments, IsReading written segments) ∨ ∃ fault, Faulty written fault := by
  induction written using List.reverseRecOn with
  | nil => exact .inl ⟨[], rfl, List.forall_mem_nil _, List.nodup_nil⟩
  | append_singleton written last ih =>
      rcases ih with ⟨segments, rfl, legal, distinct⟩ |
        ⟨fault, @⟨before, read, rest, after, _, rfl, legal, distinct, bad⟩⟩
      · obtain ⟨s, rest, rfl, own, new, stuck⟩ := exists_text_append last distinct last
        have legal' : ∀ s' ∈ segments ++ [s], s'.IsLegal :=
          List.forall_mem_append.mpr ⟨legal, List.forall_mem_singleton.mpr own⟩
        rw [← namesOf_append_singleton] at new stuck
        rcases stuck with rfl | ⟨fault, bad⟩
        · exact .inl ⟨segments ++ [s], by simp, legal', new⟩
        · exact .inr ⟨fault, .brace rfl legal' new bad⟩
      · have text : before.map Segment.text ++ (read.text ++ rest) :: (after ++ [last]) =
            before.map Segment.text ++ (read.text ++ rest) :: after ++ [last] := by simp
        exact .inr ⟨fault, .brace text legal distinct bad⟩

theorem readTemplate_cases (template : String) :
    (∃ segments, readTemplate template = .ok segments ∧
        IsReading (Path.segments template.toList) segments) ∨
      ∃ fault, readTemplate template = .error fault ∧
        Faulty (Path.segments template.toList) fault := by
  rcases exists_isReading_or_faulty (Path.segments template.toList) with
    ⟨segments, reading⟩ | ⟨fault, faulty⟩
  · exact .inl ⟨segments, readSegments_of_isReading reading, reading⟩
  · exact .inr ⟨fault, readSegments_of_faulty faulty, faulty⟩

theorem readTemplate_eq_ok_iff {template : String} {segments : List Segment} :
    readTemplate template = .ok segments ↔
      IsReading (Path.segments template.toList) segments := by
  constructor
  · intro h
    rcases readTemplate_cases template with ⟨found, hfound, reading⟩ | ⟨fault, hfault, -⟩
    · obtain rfl := Except.ok.inj (h.symm.trans hfound)
      exact reading
    · exact absurd (h.symm.trans hfault) (by simp)
  · exact readSegments_of_isReading

theorem readTemplate_eq_error_iff {template : String} {fault : TemplateFault} :
    readTemplate template = .error fault ↔ Faulty (Path.segments template.toList) fault := by
  constructor
  · intro h
    rcases readTemplate_cases template with ⟨segments, hsegments, -⟩ | ⟨found, hfound, faulty⟩
    · exact absurd (h.symm.trans hsegments) (by simp)
    · obtain rfl := Except.error.inj (h.symm.trans hfound)
      exact faulty
  · exact readSegments_of_faulty

namespace Pattern

theorem exists_compile_eq_ok_iff {template : String} {segments : List Segment} :
    (∃ p, compile template = .ok p ∧ p.segments = segments) ↔
      readTemplate template = .ok segments := by
  constructor
  · rintro ⟨p, hp, rfl⟩
    rw [← compile_eq_ok_iff.mp hp]
    exact p.readTemplate_eq
  · intro h
    let p : Pattern := ⟨template, segments, h⟩
    exact ⟨p, p.compile_template, rfl⟩

theorem compile_eq_error_iff {template : String} {e : RegistrationError} :
    compile template = .error e ↔
      ∃ fault, readTemplate template = .error fault ∧ e = fault.report template := by
  unfold compile
  split
  · next segments h => simp [h]
  · next text h =>
    rw [h]
    simp [TemplateFault.report, eq_comm]
  · next name h =>
    rw [h]
    simp [TemplateFault.report, eq_comm]

theorem isPattern_iff (s : Segment) : s.isPattern = true ↔ ∃ name, Piece.variable name ∈ s := by
  rw [Segment.isPattern, List.any_eq_true]
  constructor
  · rintro ⟨piece, mem, isSome⟩
    cases piece with
    | char c => cases isSome
    | «variable» name => exact ⟨name, mem⟩
  · rintro ⟨name, mem⟩
    exact ⟨_, mem, rfl⟩

theorem hasVariables_iff (p : Pattern) :
    p.hasVariables = true ↔ ∃ s ∈ p.segments, s.isPattern = true := by
  rw [hasVariables, names_eq_map_rawNames, rawNames, Bool.not_eq_true', List.isEmpty_eq_false_iff,
    ne_eq, List.map_eq_nil_iff, List.flatMap_eq_nil_iff]
  simp only [← Segment.isPattern_eq_false_iff, not_forall, Bool.not_eq_false, exists_prop]

end Pattern

/-- A template compiles exactly if its segments have a reading, and then to that reading; its names
are those of the reading from left to right. Otherwise the leftmost brace that cannot be read tells
what is reported. -/
theorem compile_follows_grammar (template : String) :
    (∀ segments, (∃ p, Pattern.compile template = .ok p ∧ p.segments = segments) ↔
      IsReading (Path.segments template.toList) segments) ∧
    (∀ p, Pattern.compile template = .ok p → p.names = (namesOf p.segments).map String.ofList ∧
      (∀ s ∈ p.segments, s.isPattern = true ↔ ∃ name, Piece.variable name ∈ s) ∧
      (p.hasVariables = true ↔ ∃ s ∈ p.segments, s.isPattern = true)) ∧
    ∀ e, Pattern.compile template = .error e ↔
      ∃ fault, Faulty (Path.segments template.toList) fault ∧ e = fault.report template := by
  refine ⟨?_, ?_, ?_⟩
  · intro segments
    rw [Pattern.exists_compile_eq_ok_iff, readTemplate_eq_ok_iff]
  · intro p _
    exact ⟨rfl, fun s _ => Pattern.isPattern_iff s, p.hasVariables_iff⟩
  · intro e
    simp only [Pattern.compile_eq_error_iff, readTemplate_eq_error_iff]

/-- Of a repeated name and a closing brace behind it, the name is reported. -/
theorem compile_follows_grammar_of_two_faults :
    Pattern.compile "/x\x7bid\x7d/\x7bid\x7d-\x7d" =
      .error (.duplicateVariable "id" "/x\x7bid\x7d/\x7bid\x7d-\x7d") := by
  let before : List Segment := [[.char 'x', .variable ['i', 'd']]]
  let rest : List Char := '\x7b' :: (['i', 'd'] ++ '\x7d' :: ['-', '\x7d'])
  have htemplate : "/x\x7bid\x7d/\x7bid\x7d-\x7d".toList =
      ['/', 'x', '\x7b', 'i', 'd', '\x7d', '/', '\x7b', 'i', 'd', '\x7d', '-', '\x7d'] := by simp
  have text : before.map Segment.text ++ (Segment.text [] ++ rest) :: [] =
      Path.segments "/x\x7bid\x7d/\x7bid\x7d-\x7d".toList := by
    rw [htemplate]
    rfl
  have name : IsName ['i', 'd'] := (isIdentifier_iff _).mp rfl
  have legal : ∀ s ∈ before ++ [[]], s.IsLegal := by
    simp [before, Segment.IsLegal, Piece.IsLegal, name]
  have faulty : Faulty _ _ := .brace text legal (by decide) (.repeated name (by decide) _)
  exact ((compile_follows_grammar _).2.2 _).mpr ⟨_, faulty, rfl⟩

end HttpRouting
