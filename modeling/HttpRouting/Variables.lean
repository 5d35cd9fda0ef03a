import HttpRouting.Number
import HttpRouting.Text

/-!
# Path variables

The variables that a path bound, in declared order; of several with one name the first is found. A
variable can be asked for as a number, and remembers each number that was read successfully. What it
remembers is always what reading its value again gives, so earlier questions never show in later
answers.
-/

namespace HttpRouting

structure VariableError where
  name : String
  value : String
  kind : String
  reason : String
deriving DecidableEq, Repr

namespace VariableError

def message (e : VariableError) : String :=
  "path variable " ++ e.name ++ "=" ++ Text.quote e.value ++ " is not a valid " ++ e.kind ++ ": " ++
    e.reason

def describe (e : VariableError) : String :=
  Text.record "Parse" [("name", Text.quote e.name), ("value", Text.quote e.value),
    ("kind", Text.quote e.kind), ("reason", Text.quote e.reason)]

end VariableError

/-- A variable with the numbers that were read from its value so far. -/
structure Variable where
  name : String
  value : String
  known : List (NumberKind × Number) := []
deriving DecidableEq, Repr

namespace Variable

def readFresh (v : Variable) (kind : NumberKind) : Except VariableError Number :=
  match kind.read v.value with
  | .ok n => .ok n
  | .error reason => .error ⟨v.name, v.value, kind.name, reason⟩

/-- Reads the value as a number, and remembers the number if there is one. -/
def read (v : Variable) (kind : NumberKind) : Except VariableError Number × Variable :=
  match v.known.lookup kind with
  | some n => (.ok n, v)
  | none =>
      match v.readFresh kind with
      | .ok n => (.ok n, { v with known := (kind, n) :: v.known })
      | .error e => (.error e, v)

def Sound (v : Variable) : Prop :=
  ∀ kind n, v.known.lookup kind = some n → v.readFresh kind = .ok n

theorem sound_mk (name value : String) : Sound ⟨name, value, []⟩ := by
  intro kind n h
  simp at h

theorem fst_read {v : Variable} (h : v.Sound) (kind : NumberKind) :
    (v.read kind).1 = v.readFresh kind := by
  rw [read]
  split
  · next n hn => exact (h kind n hn).symm
  · split <;> simp_all

theorem readFresh_snd_read (v : Variable) (kind other : NumberKind) :
    (v.read kind).2.readFresh other = v.readFresh other := by
  rw [read]
  split
  · rfl
  · split <;> rfl

@[simp] theorem name_snd_read (v : Variable) (kind : NumberKind) :
    (v.read kind).2.name = v.name := by
  rw [read]
  split
  · rfl
  · split <;> rfl

@[simp] theorem value_snd_read (v : Variable) (kind : NumberKind) :
    (v.read kind).2.value = v.value := by
  rw [read]
  split
  · rfl
  · split <;> rfl

theorem sound_snd_read {v : Variable} (h : v.Sound) (kind : NumberKind) :
    (v.read kind).2.Sound := by
  intro other m hm
  rw [readFresh_snd_read]
  rw [read] at hm
  split at hm
  · exact h other m hm
  · split at hm
    · next n hn =>
      rw [List.lookup_cons] at hm
      split at hm
      · next heq =>
        rw [eq_of_beq heq, hn]
        simpa using hm
      · exact h other m hm
    · exact h other m hm

end Variable

structure Variables where
  entries : List Variable := []
deriving DecidableEq, Repr

namespace Variables

def empty : Variables := ⟨[]⟩

def ofPairs (pairs : List (String × String)) : Variables :=
  ⟨pairs.map fun (name, value) => ⟨name, value, []⟩⟩

def pairs (vs : Variables) : List (String × String) := vs.entries.map fun v => (v.name, v.value)

def names (vs : Variables) : List String := vs.entries.map Variable.name

def size (vs : Variables) : Nat := vs.entries.length

def isEmpty (vs : Variables) : Bool := vs.entries.isEmpty

def get? (vs : Variables) (name : String) : Option String := vs.pairs.lookup name

def contains (vs : Variables) (name : String) : Bool := (vs.get? name).isSome

private def readEntry (name : String) (kind : NumberKind) :
    List Variable → Except VariableError (Option Number) × List Variable
  | [] => (.ok none, [])
  | v :: rest =>
      if v.name = name then
        let (answer, v) := v.read kind
        (answer.map some, v :: rest)
      else
        let (answer, rest) := readEntry name kind rest
        (answer, v :: rest)

/-- The first variable with a name, read as a number, and the variables with what is then known. -/
def read (vs : Variables) (kind : NumberKind) (name : String) :
    Except VariableError (Option Number) × Variables :=
  let (answer, entries) := readEntry name kind vs.entries
  (answer, ⟨entries⟩)

def describe (vs : Variables) : String := Text.dictionary vs.pairs

theorem read_cons_of_eq {v : Variable} {name : String} (h : v.name = name) (rest : List Variable)
    (kind : NumberKind) :
    read ⟨v :: rest⟩ kind name = ((v.read kind).1.map some, ⟨(v.read kind).2 :: rest⟩) := by
  rw [read, readEntry, if_pos h]

theorem read_cons_of_ne {v : Variable} {name : String} (h : v.name ≠ name) (rest : List Variable)
    (kind : NumberKind) :
    read ⟨v :: rest⟩ kind name =
      ((read ⟨rest⟩ kind name).1, ⟨v :: (read ⟨rest⟩ kind name).2.entries⟩) := by
  rw [read, readEntry, if_neg h, read]

private theorem map_snd_readEntry (name : String) (kind : NumberKind) (entries : List Variable) :
    (readEntry name kind entries).2.map (fun v => (v.name, v.value)) =
      entries.map fun v => (v.name, v.value) := by
  induction entries with
  | nil => rfl
  | cons v rest ih =>
      rw [readEntry]
      split
      · rw [List.map_cons, List.map_cons, Variable.name_snd_read, Variable.value_snd_read]
      · rw [List.map_cons, ih, List.map_cons]

@[simp] theorem pairs_snd_read (vs : Variables) (kind : NumberKind) (name : String) :
    (vs.read kind name).2.pairs = vs.pairs :=
  map_snd_readEntry name kind vs.entries

@[simp] theorem pairs_ofPairs (pairs : List (String × String)) : (ofPairs pairs).pairs = pairs := by
  induction pairs with
  | nil => rfl
  | cons pair rest ih => simpa [ofPairs, Variables.pairs] using ih

end Variables

end HttpRouting
