/-!
# Path expressions

The regular expressions that templates and path filters are turned into, and the search that
answers them. An expression is anchored at both ends and is a sequence of parts, so a search has
one continuation at each part: a repetition takes as much as it can and gives back one character
at a time, which makes the first answer found the preferred one.

`Regex.search` stands for the leftmost-first search of a regular expression engine that is given
`Regex.text`. Every part is written as a well-formed piece of an expression, so every text that is
made here is a well-formed expression, and the engine is taken to accept it. An engine can still
refuse an expression that is too large for its limits. `Regex.Fault` is what it would report;
there is no limit here, so no expression has such a fault.

The direct search repeats work where several repetitions meet. `Regex.captures` therefore answers
expressions with more than two groups from a table with one entry for each end of the text, and
`captures_eq_search` says that both give the same answer.
-/

namespace HttpRouting

/-- A character, runs of slashes (`slashes` may be empty, `separator` is not), a captured run without
slashes, or an optional run of slashes with any characters behind it other than a line feed. -/
inductive Regex.Part where
  | char (c : Char)
  | slashes
  | separator
  | variable
  | below
deriving DecidableEq, Repr

structure Regex where
  parts : List Regex.Part
deriving DecidableEq, Repr

inductive Regex.Fault where
  | tooBig (limit : Nat)
  | malformed (text : String)
deriving DecidableEq, Repr

def Regex.Fault.message : Regex.Fault → String
  | .tooBig limit => s!"Compiled regex exceeds size limit of {limit} bytes."
  | .malformed text => text

namespace Regex

/-- The characters that stand for something else unless a backslash is before them. -/
def metacharacters : List Char :=
  ['\\', '.', '+', '*', '?', '(', ')', '|', '[', ']', '\x7b', '\x7d', '^', '$', '#', '&', '-', '~']

def Part.text : Part → List Char
  | .char c => if c ∈ metacharacters then ['\\', c] else [c]
  | .slashes => ['/', '*']
  | .separator => ['/', '+']
  | .variable => ['(', '[', '^', '/', ']', '+', ')']
  | .below => ['(', '/', '+', '.', '*', ')', '?']

def text (r : Regex) : String :=
  String.ofList ('^' :: r.parts.flatMap Part.text ++ ['$'])

def groups (r : Regex) : Nat := r.parts.count .variable

abbrev Captures := List (List Char)

abbrev Matcher (β : Type) := List Char → Option β

section Search

variable {β γ : Type}

def oneOf (p : Char → Bool) (g : Char → β → γ) (k : Matcher β) : Matcher γ
  | [] => none
  | c :: cs => if p c then (k cs).map (g c) else none

/-- Takes characters of a class as long as it can, gives them back one at a time until what
follows is found, and answers with what it kept. -/
def greedy (p : Char → Bool) (k : Matcher β) : Matcher (List Char × β)
  | [] => (k []).map ([], ·)
  | c :: cs =>
      match if p c then greedy p k cs else none with
      | some (taken, b) => some (c :: taken, b)
      | none => (k (c :: cs)).map ([], ·)

def atEnd : Matcher Captures
  | [] => some []
  | _ :: _ => none

theorem append_of_greedy {p : Char → Bool} {k : Matcher β} {s taken : List Char} {b : β}
    (h : greedy p k s = some (taken, b)) :
    ∃ rest, s = taken ++ rest ∧ (∀ c ∈ taken, p c = true) ∧ k rest = some b := by
  induction s generalizing taken with
  | nil =>
      obtain ⟨found, hk, heq⟩ := Option.map_eq_some_iff.mp h
      cases heq
      exact ⟨[], rfl, by simp, hk⟩
  | cons c cs ih =>
      rw [greedy] at h
      split at h
      · next t found hrest =>
        cases h
        by_cases hc : p c = true
        · rw [if_pos hc] at hrest
          obtain ⟨rest, rfl, hall, hk⟩ := ih hrest
          exact ⟨rest, rfl, by simpa [hc] using hall, hk⟩
        · simp [hc] at hrest
      · obtain ⟨found, hk, heq⟩ := Option.map_eq_some_iff.mp h
        cases heq
        exact ⟨c :: cs, rfl, by simp, hk⟩

theorem greedy_append {p : Char → Bool} {k : Matcher β} {first rest : List Char}
    (hall : ∀ c ∈ first, p c = true) (hk : (k rest).isSome) :
    ∃ more b, greedy p k (first ++ rest) = some (first ++ more, b) := by
  induction first with
  | nil =>
      cases rest with
      | nil => simpa [greedy, Option.isSome_iff_exists] using hk
      | cons c cs =>
          rw [List.nil_append, greedy]
          split
          · next t b _ => exact ⟨c :: t, b, rfl⟩
          · obtain ⟨b, hb⟩ := Option.isSome_iff_exists.mp hk
            exact ⟨[], b, by simp [hb]⟩
  | cons c cs ih =>
      obtain ⟨more, b, hmore⟩ := ih fun d hd => hall d (by simp [hd])
      exact ⟨more, b, by simp [greedy, hall c (by simp), hmore]⟩

end Search

def Part.search (k : Matcher Captures) : Part → Matcher Captures
  | .char c => oneOf (· == c) (fun _ found => found) k
  | .slashes => fun s => (greedy (· == '/') k s).map Prod.snd
  | .separator => oneOf (· == '/') (fun _ found => found.2) (greedy (· == '/') k)
  | .variable => oneOf (· != '/') (fun c found => (c :: found.1) :: found.2) (greedy (· != '/') k)
  | .below => fun s =>
      (oneOf (· == '/') (fun _ found => found.2.2) (greedy (· == '/') (greedy (· != '\n') k)) s).or
        (k s)

def search (r : Regex) : Matcher Captures :=
  r.parts.foldr (fun part k => part.search k) atEnd

section Table

variable {β γ : Type}

/-- The answers of a search at a text and at each of its ends, down to the empty one. -/
def rowOf (k : Matcher β) : List Char → List (Option β)
  | [] => [k []]
  | c :: cs => k (c :: cs) :: rowOf k cs

def oneOfRow (p : Char → Bool) (g : Char → β → γ) :
    List Char → List (Option β) → List (Option γ)
  | [], _ => [none]
  | c :: cs, row =>
      (if p c then (row.tail.headD none).map (g c) else none) :: oneOfRow p g cs row.tail

def greedyRow (p : Char → Bool) :
    List Char → List (Option β) → List (Option (List Char × β))
  | [], row => [(row.headD none).map ([], ·)]
  | c :: cs, row =>
      let rest := greedyRow p cs row.tail
      (match if p c then rest.headD none else none with
        | some (taken, b) => some (c :: taken, b)
        | none => (row.headD none).map ([], ·)) :: rest

@[simp] theorem head?_rowOf (k : Matcher β) (s : List Char) : (rowOf k s).head? = some (k s) := by
  cases s <;> rfl

theorem oneOfRow_rowOf (p : Char → Bool) (g : Char → β → γ) (k : Matcher β) (s : List Char) :
    oneOfRow p g s (rowOf k s) = rowOf (oneOf p g k) s := by
  induction s with
  | nil => rfl
  | cons c cs ih => simp [oneOfRow, rowOf, oneOf, ih]

theorem greedyRow_rowOf (p : Char → Bool) (k : Matcher β) (s : List Char) :
    greedyRow p s (rowOf k s) = rowOf (greedy p k) s := by
  induction s with
  | nil => rfl
  | cons c cs ih => simp [greedyRow, rowOf, greedy, ih]

theorem map_rowOf (f : Option β → Option γ) (k : Matcher β) (s : List Char) :
    (rowOf k s).map f = rowOf (fun t => f (k t)) s := by
  induction s with
  | nil => rfl
  | cons c cs ih => simp [rowOf, ih]

theorem zipWith_rowOf (f : Option β → Option β → Option β) (k l : Matcher β) (s : List Char) :
    List.zipWith f (rowOf k s) (rowOf l s) = rowOf (fun t => f (k t) (l t)) s := by
  induction s with
  | nil => rfl
  | cons c cs ih => simp [rowOf, ih]

end Table

def Part.row (s : List Char) (row : List (Option Captures)) : Part → List (Option Captures)
  | .char c => oneOfRow (· == c) (fun _ found => found) s row
  | .slashes => (greedyRow (· == '/') s row).map (Option.map Prod.snd)
  | .separator => oneOfRow (· == '/') (fun _ found => found.2) s (greedyRow (· == '/') s row)
  | .variable =>
      oneOfRow (· != '/') (fun c found => (c :: found.1) :: found.2) s
        (greedyRow (· != '/') s row)
  | .below =>
      List.zipWith Option.or
        (oneOfRow (· == '/') (fun _ found => found.2.2) s
          (greedyRow (· == '/') s (greedyRow (· != '\n') s row)))
        row

theorem Part.row_rowOf (part : Part) (k : Matcher Captures) (s : List Char) :
    part.row s (rowOf k s) = rowOf (part.search k) s := by
  cases part <;>
    simp only [Part.row, Part.search, oneOfRow_rowOf, greedyRow_rowOf, map_rowOf, zipWith_rowOf]

/-- The tabulated search: the row of each part, from the last part to the first. -/
def tabulated (r : Regex) (s : List Char) : Option Captures :=
  (r.parts.foldr (fun part row => part.row s row) (rowOf atEnd s)).headD none

theorem tabulated_eq_search (r : Regex) : r.tabulated = r.search := by
  funext s
  have rows : ∀ parts : List Part,
      parts.foldr (fun part row => part.row s row) (rowOf atEnd s) =
        rowOf (parts.foldr (fun part k => part.search k) atEnd) s := by
    intro parts
    induction parts with
    | nil => rfl
    | cons part parts ih => rw [List.foldr_cons, ih, Part.row_rowOf, List.foldr_cons]
  simp [tabulated, rows, search]

/-- What the expression captures in a text, if it matches. With few groups the direct search does
little work twice. -/
def captures (r : Regex) (s : List Char) : Option Captures :=
  if r.groups ≤ 2 then r.search s else r.tabulated s

theorem captures_eq_search (r : Regex) (s : List Char) : r.captures s = r.search s := by
  simp [captures, tabulated_eq_search]

def isMatch (r : Regex) (s : List Char) : Bool := (r.captures s).isSome

end Regex

end HttpRouting
