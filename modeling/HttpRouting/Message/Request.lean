import HttpRouting.Message.Response
import HttpRouting.Route

/-!
# Requests

A request with the properties that the links of a chain leave on it for one another. There is at
most one property of each kind: the matched route, the path variables, an integer, a text, and the
trail of labels that the request has passed.

The target of a request is read as its path and its query: in origin form, in absolute form, in
authority form or as a star. The path ends at the first question mark or number sign, the query at
the first number sign after it, and what follows a number sign is dropped. Nothing is decoded. An
authority is an optional user part that an at sign closes, a host, which may stand in brackets, and
an optional port after a colon. Only its shape is checked, from left to right: which characters
stand there, that at most one pair of brackets opens and closes, that a percent sign stands in the
user part or inside the brackets only, that one colon at most follows both, and that something
follows the last at sign.
-/

namespace HttpRouting

namespace Authority

inductive Fault where
  | invalidCharacter
  | malformed
deriving DecidableEq, Repr

def Fault.message : Fault → String
  | .invalidCharacter => "invalid uri character"
  | .malformed => "invalid authority"

def isPlainChar (c : Char) : Bool :=
  c.isAlphanum ||
    c ∈ ['-', '.', '_', '~', '!', '$', '&', Char.ofNat 39, '(', ')', '*', '+', ',', ';', '=']

/-- What is known after a part of an authority. The colons and the percent sign are those since the
last at sign or closing bracket. -/
structure Progress where
  colons : Nat := 0
  percent : Bool := false
  opened : Bool := false
  closed : Bool := false
deriving DecidableEq, Repr

namespace Progress

/-- An address in brackets with a port has eight colons, and nothing else has more. -/
def colonLimit : Nat := 8

def next (p : Progress) (c : Char) : Except Fault Progress :=
  match c with
  | ':' => if p.colons < colonLimit then .ok { p with colons := p.colons + 1 } else .error .malformed
  | '@' => .ok { p with colons := 0, percent := false }
  | '%' => .ok { p with percent := true }
  | '[' => if p.percent || p.opened then .error .malformed else .ok { p with opened := true }
  | ']' =>
      if p.opened && !p.closed then .ok { p with closed := true, colons := 0, percent := false }
      else .error .malformed
  | c => if isPlainChar c then .ok p else .error .invalidCharacter

def isComplete (p : Progress) : Bool := p.opened == p.closed && p.colons ≤ 1 && !p.percent

end Progress

/-- The reason for which a text is no authority, if there is one. The empty text is an authority
without a host. -/
def fault? (cs : List Char) : Option Fault :=
  match cs.foldlM Progress.next {} with
  | .error fault => some fault
  | .ok p => if p.isComplete && cs.getLast? ≠ some '@' then none else some .malformed

example : fault? ['u', ':', 'p', '%', '@', '[', ':', ':', '1', ']', ':', '8', '0'] = none := by
  decide

example : fault? ['h', ':', '1', ':', '2'] = some .malformed := by decide

example : fault? ['a', ' ', 'b'] = some .invalidCharacter := by decide

end Authority

structure Target where
  path : String
  query : Option String := none
deriving DecidableEq, Repr

namespace Target

inductive Fault where
  | empty
  | tooLong
  | schemeTooLong
  | badForm
  | invalidCharacter
  | authority (fault : Authority.Fault)
deriving DecidableEq, Repr

def Fault.message : Fault → String
  | .empty => "empty string"
  | .tooLong => "uri too long"
  | .schemeTooLong => "scheme too long"
  | .badForm => "invalid format"
  | .invalidCharacter => "invalid uri character"
  | .authority fault => fault.message

def sizeLimit : Nat := 65534

def schemeLimit : Nat := 64

private def inRanges (ranges : List (Nat × Nat)) (c : Char) : Bool :=
  ranges.any fun (low, high) => low ≤ c.toNat && c.toNat ≤ high

/-- The characters of a path: all but ASCII blanks, controls, angle brackets, the grave accent and
the delimiters. -/
def isPathChar : Char → Bool :=
  inRanges [(0x21, 0x22), (0x24, 0x3b), (0x3d, 0x3d), (0x40, 0x5f), (0x61, 0x7e), (0x80, 0x10ffff)]

/-- The characters of a query: all but ASCII blanks, controls, angle brackets, the double quote and
the number sign. -/
def isQueryChar : Char → Bool :=
  inRanges [(0x21, 0x21), (0x24, 0x3b), (0x3d, 0x3d), (0x3f, 0x7e), (0x80, 0x10ffff)]

private def isDelimiter (c : Char) : Bool := c = '?' || c = '#'

def readPath (cs : List Char) : Except Fault Target :=
  let path := cs.takeWhile (!isDelimiter ·)
  let query : Option (List Char) :=
    match cs.dropWhile (!isDelimiter ·) with
    | '?' :: rest => some (rest.takeWhile (· != '#'))
    | _ => none
  if path.all isPathChar && (query.getD []).all isQueryChar then
    .ok ⟨String.ofList path, query.map String.ofList⟩
  else .error .invalidCharacter

def isSchemeChar (c : Char) : Bool := c.isAlphanum || c ∈ ['+', '-', '.', '~']

def splitScheme? (cs : List Char) : Option (List Char × List Char) :=
  match cs.dropWhile isSchemeChar with
  | ':' :: '/' :: '/' :: rest => some (cs.takeWhile isSchemeChar, rest)
  | _ => none

private def endsAuthority (c : Char) : Bool := c = '/' || isDelimiter c

/-- Reads an absolute form after its scheme. The authority, which must not be empty, ends where the
path or the query starts, and an absent path is a single slash. With nothing after the scheme the
text counts as empty. -/
def readAbsolute (cs : List Char) : Except Fault Target :=
  if cs.isEmpty then .error .empty
  else
    match cs.takeWhile (!endsAuthority ·) with
    | [] => .error .badForm
    | authority =>
        match Authority.fault? authority with
        | some fault => .error (.authority fault)
        | none =>
            (readPath (cs.dropWhile (!endsAuthority ·))).map fun target =>
              if target.path.isEmpty then { target with path := "/" } else target

def readAuthority (cs : List Char) : Except Fault Target :=
  match Authority.fault? (cs.takeWhile (!endsAuthority ·)) with
  | some fault => .error (.authority fault)
  | none => if cs.any endsAuthority then .error .badForm else .ok ⟨"", none⟩

/-- Reads a target. A text that starts with a slash is in origin form, one with a scheme in absolute
form, and any other in authority form; a delimiter alone is none of them, and a colon with two
slashes alone has no scheme. -/
def read (text : String) : Except Fault Target :=
  if sizeLimit < text.utf8ByteSize then .error .tooLong
  else
    match text.toList with
    | [] => .error .empty
    | ['*'] => .ok ⟨"*", none⟩
    | ['?'] | ['#'] => .error .invalidCharacter
    | '/' :: rest => readPath ('/' :: rest)
    | cs =>
        match splitScheme? cs with
        | none | some ([], []) => readAuthority cs
        | some (scheme, rest) =>
            if schemeLimit < scheme.length then .error .schemeTooLong else readAbsolute rest

end Target

structure Properties where
  route : Option MatchedRoute := none
  bindings : Option Variables := none
  integer : Option Int := none
  text : Option String := none
  trail : Option (List String) := none
deriving DecidableEq

def Properties.size (p : Properties) : Nat :=
  [p.route.isSome, p.bindings.isSome, p.integer.isSome, p.text.isSome, p.trail.isSome].count true

structure Request where
  method : Method := .get
  target : Target
  headers : Headers := []
  body : Bytes := []
  properties : Properties := {}
deriving DecidableEq

namespace Request

def path (r : Request) : String := r.target.path

def bindings (r : Request) : Variables := r.properties.bindings.getD .empty

def matchedRoute (r : Request) : Option MatchedRoute := r.properties.route

def trail (r : Request) : List String := r.properties.trail.getD []

def setBindings (r : Request) (vs : Variables) : Request :=
  { r with properties := { r.properties with bindings := some vs } }

def setRoute (r : Request) (route : MatchedRoute) : Request :=
  { r with properties := { r.properties with route := some route } }

def setInteger (r : Request) (n : Int) : Request :=
  { r with properties := { r.properties with integer := some n } }

def setText (r : Request) (s : String) : Request :=
  { r with properties := { r.properties with text := some s } }

def pass (r : Request) (label : String) : Request :=
  { r with properties := { r.properties with trail := some (r.trail ++ [label]) } }

/-- A path variable read as a number. What the variables then know stays on the request. -/
def readVariable (r : Request) (kind : NumberKind) (name : String) :
    Except VariableError (Option Number) × Request :=
  let (answer, known) := r.bindings.read kind name
  (answer, { r with properties := { r.properties with
    bindings := r.properties.bindings.map fun _ => known } })

end Request

end HttpRouting
