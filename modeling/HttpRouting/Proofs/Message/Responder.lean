import HttpRouting.Message.Response

/-!
# Answers inside other answers

What a handler answers with is a leaf inside layers, in one way only. A layer with a status replaces
the status of what is inside it and keeps the rest, every other layer defers to what is inside it.
So the response has the header fields and the body of the leaf, and the status of the outermost
layer that has one.
-/

namespace HttpRouting.Responder

inductive Leaf where
  | unit
  | absent
  | text (s : String)
  | response (r : Response)
  | variableError (e : VariableError)

inductive Layer where
  | present
  | success
  | failure
  | boxed
  | statusFirst (status : Status)
  | statusLast (status : Status)

namespace Leaf

def value : Leaf → Responder
  | .unit => .unit
  | .absent => .absent
  | .text s => .text s
  | .response r => .response r
  | .variableError e => .variableError e

def status : Leaf → Status
  | .unit | .absent | .text _ => .ok
  | .response r => r.status
  | .variableError _ => .badRequest

end Leaf

namespace Layer

def around : Layer → Responder → Responder
  | .present, inner => .present inner
  | .success, inner => .success inner
  | .failure, inner => .failure inner
  | .boxed, inner => .boxed inner
  | .statusFirst status, inner => .statusFirst status inner
  | .statusLast status, inner => .statusLast inner status

def status? : Layer → Option Status
  | .present | .success | .failure | .boxed => none
  | .statusFirst status | .statusLast status => some status

/-- A layer changes at most the status of a response. -/
theorem respond_around (layer : Layer) (inner : Responder) :
    (layer.around inner).respond =
      { inner.respond with status := layer.status?.getD inner.respond.status } := by
  cases layer <;> rfl

end Layer

/-- A leaf with the layers around it, the outermost first. -/
structure Nesting where
  layers : List Layer
  leaf : Leaf

namespace Nesting

def value (n : Nesting) : Responder := n.layers.foldr Layer.around n.leaf.value

def statuses (n : Nesting) : List Status := n.layers.filterMap Layer.status?

def wrap (layer : Layer) (n : Nesting) : Nesting := ⟨layer :: n.layers, n.leaf⟩

@[simp] theorem value_wrap (layer : Layer) (n : Nesting) :
    (n.wrap layer).value = layer.around n.value := rfl

theorem head?_statuses_wrap (layer : Layer) (n : Nesting) :
    (n.wrap layer).statuses.head? = layer.status?.or n.statuses.head? := by
  cases layer <;> rfl

theorem respond_value (n : Nesting) : n.value.respond =
    { n.leaf.value.respond with
      status := n.statuses.head?.getD n.leaf.value.respond.status } := by
  obtain ⟨layers, leaf⟩ := n
  induction layers with
  | nil => rfl
  | cons layer layers ih =>
      change (wrap layer ⟨layers, leaf⟩).value.respond = { leaf.value.respond with
        status := (wrap layer ⟨layers, leaf⟩).statuses.head?.getD leaf.value.respond.status }
      rw [value_wrap, layer.respond_around, ih, head?_statuses_wrap]
      cases layer.status? <;> rfl

end Nesting

def nesting : Responder → Nesting
  | .unit => ⟨[], .unit⟩
  | .absent => ⟨[], .absent⟩
  | .text s => ⟨[], .text s⟩
  | .response r => ⟨[], .response r⟩
  | .variableError e => ⟨[], .variableError e⟩
  | .present inner => inner.nesting.wrap .present
  | .success inner => inner.nesting.wrap .success
  | .failure inner => inner.nesting.wrap .failure
  | .boxed inner => inner.nesting.wrap .boxed
  | .statusFirst status inner => inner.nesting.wrap (.statusFirst status)
  | .statusLast inner status => inner.nesting.wrap (.statusLast status)

theorem value_nesting (v : Responder) : v.nesting.value = v := by
  induction v with
  | unit | absent | text | response | variableError => rfl
  | present inner ih | success inner ih | failure inner ih | boxed inner ih
  | statusFirst status inner ih | statusLast inner status ih =>
      rw [nesting, Nesting.value_wrap, ih]
      rfl

theorem nesting_around (layer : Layer) (v : Responder) :
    (layer.around v).nesting = v.nesting.wrap layer := by
  cases layer <;> rfl

theorem nesting_value (n : Nesting) : n.value.nesting = n := by
  obtain ⟨layers, leaf⟩ := n
  induction layers with
  | nil => cases leaf <;> rfl
  | cons layer layers ih =>
      change (layer.around (Nesting.value ⟨layers, leaf⟩)).nesting = _
      rw [nesting_around, ih, Nesting.wrap]

theorem value_eq_iff {n : Nesting} {v : Responder} : n.value = v ↔ n = v.nesting := by
  constructor
  · rintro rfl
    exact (nesting_value n).symm
  · rintro rfl
    exact v.value_nesting

/-- A plain text body with all bytes of the text, and a header field that says so. -/
structure IsPlainText (s : String) (headers : Headers) (body : Body) : Prop where
  headers_eq : headers = [⟨"content-type", "text/plain; charset=utf-8"⟩]
  body_eq : body = .ofString s
  collect_eq : body.collect = .ok (Bytes.ofString s)

/-- The header fields and the body that a leaf has. -/
def Leaf.Has : Leaf → Headers → Body → Prop
  | .unit, headers, body | .absent, headers, body => headers = [] ∧ body = .empty
  | .text s, headers, body => IsPlainText s headers body
  | .response r, headers, body => headers = r.headers ∧ body = r.body
  | .variableError e, headers, body => IsPlainText e.message headers body

theorem isPlainText_text (status : Status) (s : String) :
    IsPlainText s (Response.text status s).headers (Response.text status s).body :=
  ⟨rfl, rfl, Body.collect_ofBytes _⟩

theorem Leaf.has_respond (leaf : Leaf) :
    leaf.Has leaf.value.respond.headers leaf.value.respond.body := by
  cases leaf with
  | unit | absent | response => exact ⟨rfl, rfl⟩
  | text s => exact isPlainText_text .ok s
  | variableError e => exact isPlainText_text .badRequest e.message

theorem Leaf.status_respond (leaf : Leaf) : leaf.value.respond.status = leaf.status := by
  cases leaf <;> rfl

/-- Every value is a leaf inside layers, in one way only. Its response has the header fields and the
body of the leaf, and the outermost status around the leaf or, without one, the status of the
leaf. -/
theorem respond_nesting (v : Responder) : ∃ n : Nesting, (∀ other, other.value = v ↔ other = n) ∧
    n.leaf.Has v.respond.headers v.respond.body ∧
    v.respond.status = n.statuses.head?.getD n.leaf.status := by
  have response := v.nesting.respond_value
  rw [value_nesting] at response
  refine ⟨v.nesting, fun other => value_eq_iff, ?_, ?_⟩
  · rw [response]
    exact v.nesting.leaf.has_respond
  · rw [response, Leaf.status_respond]

example (e : VariableError) (created accepted : Status) :
    (statusLast (boxed (statusFirst created (failure (variableError e)))) accepted).respond =
      .text accepted e.message := rfl

end HttpRouting.Responder
