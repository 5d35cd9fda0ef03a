import HttpRouting.Text

/-!
# Request methods

A method is a non-empty word over the characters of a token; case matters, and any such word is a
method. A method set is either every method or a list of methods, kept without repetitions in the
order in which they were first given.
-/

namespace HttpRouting

def isTokenChar (c : Char) : Bool :=
  c.isAlphanum ||
    c ∈ ['!', '#', '$', '%', '&', Char.ofNat 39, '*', '+', '-', '.', '^', '_', Char.ofNat 96, '|',
      '~']

def isToken (word : List Char) : Bool := !word.isEmpty && word.all isTokenChar

structure Method where
  name : String
  isToken_name : isToken name.toList = true := by decide
deriving DecidableEq

namespace Method

def ofString? (name : String) : Option Method :=
  if h : isToken name.toList = true then some ⟨name, h⟩ else none

def get : Method := ⟨"GET", by decide⟩
def post : Method := ⟨"POST", by decide⟩
def put : Method := ⟨"PUT", by decide⟩
def patch : Method := ⟨"PATCH", by decide⟩
def delete : Method := ⟨"DELETE", by decide⟩
def head : Method := ⟨"HEAD", by decide⟩
def options : Method := ⟨"OPTIONS", by decide⟩

end Method

inductive MethodSet where
  | any
  | only (methods : List Method)
deriving DecidableEq

namespace MethodSet

def insertNew (methods : List Method) (m : Method) : List Method :=
  if m ∈ methods then methods else methods ++ [m]

/-- The set of the listed methods; the empty list stands for every method. -/
def ofList (methods : List Method) : MethodSet :=
  match methods.foldl insertNew [] with
  | [] => .any
  | distinct => .only distinct

def contains : MethodSet → Method → Bool
  | .any, _ => true
  | .only methods, m => m ∈ methods

def isAny : MethodSet → Bool
  | .any => true
  | .only _ => false

/-- The set with one more method; nothing is added to every method. -/
def insert : MethodSet → Method → MethodSet
  | .any, _ => .any
  | .only methods, m => ofList (methods ++ [m])

def label : MethodSet → String
  | .any => "*"
  | .only methods => "|".intercalate (methods.map Method.name)

def describe : MethodSet → String
  | .any => "Any"
  | .only methods => Text.wrapped "Only" (Text.list (methods.map Method.name))

theorem foldl_insertNew_ne_nil {methods : List Method} (h : methods ≠ []) (more : List Method) :
    more.foldl insertNew methods ≠ [] := by
  induction more generalizing methods with
  | nil => simpa using h
  | cons m more ih =>
      apply ih
      unfold insertNew
      split <;> simp [h]

@[simp] theorem ofList_eq_any_iff (methods : List Method) :
    ofList methods = .any ↔ methods = [] := by
  cases methods with
  | nil => simp [ofList]
  | cons m rest =>
      have distinct := foldl_insertNew_ne_nil (List.cons_ne_nil m []) rest
      rw [ofList, List.foldl_cons, insertNew, if_neg (by simp)]
      split
      · next hnil => exact absurd hnil distinct
      · simp

end MethodSet

end HttpRouting
