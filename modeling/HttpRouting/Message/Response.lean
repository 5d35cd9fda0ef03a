import HttpRouting.Method
import HttpRouting.Variables

/-!
# Responses

A response is a status, header fields and a body. A header field has a token for a name, kept in
lower case, and a value without control characters other than the tab; fields keep the order in
which they were appended. A body is either complete, with bytes or without, or a stream of frames of
which some may fail. A complete body knows its size and is ended once its bytes are taken; a stream
knows neither. A body can be wrapped as a stream again and then answers as the body inside.

A handler may answer with any value that becomes a response: a leaf such as a text or a response, or
a leaf inside any nesting of optional values, results, boxes and statuses. The body and the header
fields are those of the leaf that is reached, and the status is that of the outermost status around
it, if there is one.
-/

namespace HttpRouting

inductive HeaderFault where
  | invalidName
  | invalidValue
deriving DecidableEq, Repr

def HeaderFault.message : HeaderFault → String
  | .invalidName => "invalid HTTP header name"
  | .invalidValue => "failed to parse header value"

structure Header where
  name : String
  value : String
deriving DecidableEq, Repr

namespace Header

def isValueChar (c : Char) : Bool := c = '\t' || (32 ≤ c.toNat && c.toNat ≠ 127)

/-- The field of a name and a value; the name is looked at first. -/
def ofPair (name value : String) : Except HeaderFault Header :=
  if !isToken name.toList then .error .invalidName
  else if !value.toList.all isValueChar then .error .invalidValue
  else .ok ⟨name.map Char.toLower, value⟩

def sortsBefore (a b : Header) : Bool :=
  a.name < b.name || (a.name = b.name && !(b.value < a.value))

end Header

abbrev Headers := List Header

namespace Headers

def get? (hs : Headers) (name : String) : Option String :=
  (hs.find? fun h => h.name = name).map Header.value

def set (hs : Headers) (name value : String) : Headers :=
  hs.filter (fun h => h.name ≠ name) ++ [⟨name, value⟩]

def sorted (hs : Headers) : Headers := hs.mergeSort Header.sortsBefore

end Headers

abbrev Bytes := List UInt8

def Bytes.ofString (s : String) : Bytes := s.toUTF8.data.toList

inductive Frame where
  | data (bytes : Bytes)
  | failure (text : String)
deriving DecidableEq, Repr

inductive Body where
  | full (content : Option Bytes)
  | stream (frames : List Frame)
  | wrapped (inner : Body)
deriving DecidableEq, Repr

structure SizeHint where
  lower : Nat
  upper : Option Nat
deriving DecidableEq, Repr

def SizeHint.exact? (h : SizeHint) : Option Nat := if h.upper = some h.lower then h.upper else none

namespace Body

def empty : Body := .full none

def ofBytes (bytes : Bytes) : Body := .full (if bytes.isEmpty then none else some bytes)

def ofString (s : String) : Body := ofBytes (Bytes.ofString s)

def sizeHint : Body → SizeHint
  | .full content => let size := (content.getD []).length; ⟨size, some size⟩
  | .stream _ => ⟨0, none⟩
  | .wrapped inner => inner.sizeHint

def isEnded : Body → Bool
  | .full content => content.isNone
  | .stream _ => false
  | .wrapped inner => inner.isEnded

def frames : Body → List Frame
  | .full none => []
  | .full (some bytes) => [.data bytes]
  | .stream frames => frames
  | .wrapped inner => inner.frames

def next : Body → Option Frame × Body
  | .full none => (none, .full none)
  | .full (some bytes) => (some (.data bytes), .full none)
  | .stream [] => (none, .stream [])
  | .stream (frame :: rest) => (some frame, .stream rest)
  | .wrapped inner => (inner.next.1, .wrapped inner.next.2)

def joinFrames : List Frame → Except String Bytes
  | [] => .ok []
  | .data bytes :: rest => (joinFrames rest).map (bytes ++ ·)
  | .failure text :: _ => .error text

def collect (b : Body) : Except String Bytes := joinFrames b.frames

def describe : Body → String
  | .full content => Text.wrapped "ResponseBody" (Text.optional (content.map Text.quoteBytes))
  | .stream _ | .wrapped _ => Text.wrapped "ResponseBody" (Text.quote "<stream>")

@[simp] theorem collect_ofBytes (bytes : Bytes) : (ofBytes bytes).collect = .ok bytes := by
  cases bytes <;> simp [ofBytes, collect, frames, joinFrames, Except.map]

end Body

/-- A status code: three digits, the first of them not zero. -/
structure Status where
  code : Nat
  code_mem : 100 ≤ code ∧ code ≤ 999 := by decide
deriving DecidableEq, Repr

namespace Status

def ofNat? (code : Nat) : Option Status :=
  if h : 100 ≤ code ∧ code ≤ 999 then some ⟨code, h⟩ else none

def ok : Status := ⟨200, by decide⟩
def badRequest : Status := ⟨400, by decide⟩
def notFound : Status := ⟨404, by decide⟩
def methodNotAllowed : Status := ⟨405, by decide⟩
def internalServerError : Status := ⟨500, by decide⟩

end Status

structure Response where
  status : Status := .ok
  headers : Headers := []
  body : Body := .empty
deriving DecidableEq

namespace Response

def text (status : Status) (s : String) : Response :=
  ⟨status, [⟨"content-type", "text/plain; charset=utf-8"⟩], .ofString s⟩

def notFound : Response := text .notFound "Not Found"
def methodNotAllowed : Response := text .methodNotAllowed "Method Not Allowed"
def internalServerError : Response := text .internalServerError "Internal Server Error"

end Response

inductive Responder where
  | unit
  | text (s : String)
  | response (r : Response)
  | variableError (e : VariableError)
  | absent
  | present (inner : Responder)
  | success (inner : Responder)
  | failure (inner : Responder)
  | boxed (inner : Responder)
  | statusFirst (status : Status) (inner : Responder)
  | statusLast (inner : Responder) (status : Status)
deriving DecidableEq

namespace Responder

def respond : Responder → Response
  | .unit | .absent => {}
  | .text s => .text .ok s
  | .response r => r
  | .variableError e => .text .badRequest e.message
  | .present inner | .success inner | .failure inner | .boxed inner => inner.respond
  | .statusFirst status inner | .statusLast inner status => { inner.respond with status := status }

end Responder

end HttpRouting
