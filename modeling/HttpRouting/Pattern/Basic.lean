import HttpRouting.Path
import HttpRouting.Pattern.Regex
import HttpRouting.Variables

/-!
# Path patterns

A template segment is read as a sequence of pieces: a character that stands for itself, or a
variable written as a name in braces. A name is an ASCII letter followed by ASCII letters, digits
and underscores, and no template uses a name twice. Reading stops at the leftmost fault.

A pattern is a template that could be read. It matches the paths whose non-empty segments are its
segments with a text without slashes in the place of each variable, and it binds its variables to
those texts. Patterns with the same segments have the same key.
-/

namespace HttpRouting

inductive Piece where
  | char (c : Char)
  | variable (name : List Char)
deriving DecidableEq, Repr

def Piece.text : Piece → List Char
  | .char c => [c]
  | .variable name => '\x7b' :: name ++ ['\x7d']

def Piece.name? : Piece → Option (List Char)
  | .char _ => none
  | .variable name => some name

abbrev Segment := List Piece

namespace Segment

def text (s : Segment) : List Char := s.flatMap Piece.text

def names (s : Segment) : List (List Char) := s.filterMap Piece.name?

def isPattern (s : Segment) : Bool := s.any fun piece => piece.name?.isSome

@[simp] theorem text_nil : text [] = [] := rfl

@[simp] theorem text_cons (p : Piece) (s : Segment) : text (p :: s) = p.text ++ text s := rfl

theorem isPattern_eq_false_iff (s : Segment) : s.isPattern = false ↔ s.names = [] := by
  induction s with
  | nil => simp [isPattern, names]
  | cons p s ih =>
      cases p <;> simp_all [isPattern, names, Piece.name?]

end Segment

inductive TemplateFault where
  | illegalVariable (text : List Char)
  | duplicateVariable (name : List Char)
deriving DecidableEq, Repr

def isIdentifier : List Char → Bool
  | [] => false
  | c :: cs => c.isAlpha && cs.all fun d => d.isAlphanum || d == '_'

/-- Reads the rest of the segment `whole` after the names in `seen`; the third argument holds what
was read since an open brace, if one is open. -/
def readSegment (whole : List Char) :
    List (List Char) → Option (List Char) → List Char → Except TemplateFault Segment
  | _, none, [] => .ok []
  | _, some inside, [] => .error (.illegalVariable ('\x7b' :: inside))
  | seen, none, c :: cs =>
      if c = '\x7b' then readSegment whole seen (some []) cs
      else if c = '\x7d' then .error (.illegalVariable whole)
      else (readSegment whole seen none cs).map (.char c :: ·)
  | seen, some inside, c :: cs =>
      if c ≠ '\x7d' then readSegment whole seen (some (inside ++ [c])) cs
      else if !isIdentifier inside then
        .error (.illegalVariable ('\x7b' :: inside ++ ['\x7d']))
      else if inside ∈ seen then .error (.duplicateVariable inside)
      else (readSegment whole (seen ++ [inside]) none cs).map (.variable inside :: ·)

def readSegments (seen : List (List Char)) : List (List Char) → Except TemplateFault (List Segment)
  | [] => .ok []
  | s :: rest =>
      match readSegment s seen none s with
      | .error fault => .error fault
      | .ok segment => (readSegments (seen ++ segment.names) rest).map (segment :: ·)

def readTemplate (template : String) : Except TemplateFault (List Segment) :=
  readSegments [] (Path.segments template.toList)

theorem map_eq_ok {α β ε : Type} {f : α → β} {x : Except ε α} {b : β}
    (h : x.map f = .ok b) : ∃ a, x = .ok a ∧ f a = b := by
  cases x with
  | error e => simp [Except.map] at h
  | ok a => exact ⟨a, rfl, by simpa [Except.map] using h⟩

theorem text_readSegment {whole cs : List Char} {seen : List (List Char)}
    {brace : Option (List Char)} {segment : Segment}
    (h : readSegment whole seen brace cs = .ok segment) :
    segment.text = (brace.elim [] ('\x7b' :: ·)) ++ cs := by
  induction cs generalizing seen brace segment with
  | nil => cases brace <;> simp_all [readSegment]
  | cons c cs ih =>
      cases brace with
      | none =>
          rw [readSegment] at h
          split at h
          · next hc => simpa [hc] using ih h
          · split at h
            · simp at h
            · obtain ⟨s, hs, rfl⟩ := map_eq_ok h
              simpa [Piece.text] using ih hs
      | some inside =>
          rw [readSegment] at h
          split at h
          · simpa using ih h
          · next hc =>
            split at h
            · simp at h
            · split at h
              · simp at h
              · obtain ⟨s, hs, rfl⟩ := map_eq_ok h
                simp_all [Piece.text, ih hs]

theorem map_text_readSegments {seen : List (List Char)} {written : List (List Char)}
    {segments : List Segment} (h : readSegments seen written = .ok segments) :
    segments.map Segment.text = written := by
  induction written generalizing seen segments with
  | nil => simp_all [readSegments]
  | cons s rest ih =>
      rw [readSegments] at h
      split at h
      · simp at h
      · next segment hs =>
        obtain ⟨others, ho, rfl⟩ := map_eq_ok h
        simp [ih ho, text_readSegment hs]

/-- Why nothing is registered. `invalidRegex` passes on that the engine refuses the expression of a
template; since each of these is taken to be accepted, `Pattern.compile` does not answer with it. -/
inductive RegistrationError where
  | illegalVariable (text : String)
  | duplicateVariable (name template : String)
  | invalidRegex (template : String) (fault : Regex.Fault)
  | alreadyInitialized
deriving DecidableEq, Repr

namespace RegistrationError

def message : RegistrationError → String
  | .illegalVariable v => "illegal path variable " ++ v
  | .duplicateVariable name template =>
      "duplicate path variable \x7b" ++ name ++ "\x7d in template " ++ template
  | .invalidRegex template fault => "invalid path template " ++ template ++ ": " ++ fault.message
  | .alreadyInitialized => "router has already been initialized, no more routes can be registered"

def cause? : RegistrationError → Option String
  | .invalidRegex _ fault => some fault.message
  | _ => none

def describe? : RegistrationError → Option String
  | .illegalVariable v => some (Text.record "IllegalPathVariable" [("variable", Text.quote v)])
  | .duplicateVariable name template =>
      some (Text.record "DuplicatePathVariable"
        [("name", Text.quote name), ("template", Text.quote template)])
  | .invalidRegex _ _ => none
  | .alreadyInitialized => some "AlreadyInitialized"

end RegistrationError

/-- A template together with the segments that are read from it. -/
structure Pattern where
  template : String
  segments : List Segment
  readTemplate_eq : readTemplate template = .ok segments

namespace Pattern

def compile (template : String) : Except RegistrationError Pattern :=
  match h : readTemplate template with
  | .ok segments => .ok ⟨template, segments, h⟩
  | .error (.illegalVariable text) => .error (.illegalVariable (String.ofList text))
  | .error (.duplicateVariable name) =>
      .error (.duplicateVariable (String.ofList name) template)

def names (p : Pattern) : List String := (p.segments.flatMap Segment.names).map String.ofList

def hasVariables (p : Pattern) : Bool := !p.names.isEmpty

def partOf : Piece → Regex.Part
  | .char c => .char c
  | .variable _ => .variable

def partsOf : List Segment → List Regex.Part
  | [] => []
  | first :: rest =>
      .slashes :: first.map partOf ++ rest.flatMap fun s => .separator :: s.map partOf

/-- The expression that a path has to match: the segments, slashes between them, and any number of
slashes at both ends. -/
def regex (p : Pattern) : Regex := ⟨partsOf p.segments ++ [.slashes]⟩

/-- The segments after a slash each, or a single slash if there are none. -/
def key (p : Pattern) : String :=
  match p.segments with
  | [] => "/"
  | segments => String.ofList (segments.flatMap fun s => '/' :: s.text)

def isMatch (p : Pattern) (path : String) : Bool := p.regex.isMatch path.toList

def captures (p : Pattern) (path : String) : Option Variables :=
  (p.regex.captures path.toList).map fun values =>
    Variables.ofPairs (p.names.zip (values.map String.ofList))

def describe (p : Pattern) : String :=
  Text.record "PathPattern" [("template", Text.quote p.template),
    ("regex", Text.quote p.regex.text),
    ("variable_names", Text.list (p.names.map Text.quote))]

theorem compile_template (p : Pattern) : compile p.template = .ok p := by
  rcases p with ⟨template, segments, h⟩
  unfold compile
  split
  · next read hread =>
    obtain rfl : segments = read := by simpa [h] using hread
    rfl
  · next hread => simp [h] at hread
  · next hread => simp [h] at hread

theorem isMatch_eq_isSome_captures (p : Pattern) (path : String) :
    p.isMatch path = (p.captures path).isSome := by
  simp [isMatch, captures, Regex.isMatch]

end Pattern

end HttpRouting
