import HttpRouting.Variables
import Mathlib.Logic.Function.Basic

/-!
# Reads through shared handles

Handles to one set of variables share what is known of the numbers, and a copy of a handle is a
handle to the same set. Whatever was asked before, through whichever handle, an answer is the one that
a set gives of which nothing is known yet.
-/

namespace HttpRouting

namespace Variables

variable {vs : Variables}

def Sound (vs : Variables) : Prop := ∀ v ∈ vs.entries, v.Sound

theorem sound_ofPairs (pairs : List (String × String)) : (ofPairs pairs).Sound := by
  intro v hv
  obtain ⟨pair, -, rfl⟩ := List.mem_map.mp hv
  exact Variable.sound_mk pair.1 pair.2

theorem sound_snd_read (h : vs.Sound) (kind : NumberKind) (name : String) :
    (vs.read kind name).2.Sound := by
  obtain ⟨entries⟩ := vs
  induction entries with
  | nil => exact h
  | cons v rest ih =>
      have hv : v.Sound := h v List.mem_cons_self
      have hrest : (⟨rest⟩ : Variables).Sound := fun w hw => h w (List.mem_cons_of_mem v hw)
      by_cases found : v.name = name
      · rw [read_cons_of_eq found]
        exact List.forall_mem_cons.mpr ⟨Variable.sound_snd_read hv kind, hrest⟩
      · rw [read_cons_of_ne found]
        exact List.forall_mem_cons.mpr ⟨hv, ih hrest⟩

/-- A value read as a number, or an error with the name, the value, the kind and the reason. -/
def parse (kind : NumberKind) (name value : String) : Except VariableError Number :=
  (kind.read value).mapError fun reason => ⟨name, value, kind.name, reason⟩

theorem parse_eq_readFresh (v : Variable) (kind : NumberKind) :
    parse kind v.name v.value = v.readFresh kind := by
  rw [parse, Variable.readFresh]
  cases kind.read v.value <;> rfl

def parseFirst (pairs : List (String × String)) (kind : NumberKind) (name : String) :
    Except VariableError (Option Number) :=
  match pairs.lookup name with
  | none => .ok none
  | some value => (parse kind name value).map some

theorem fst_read (h : vs.Sound) (kind : NumberKind) (name : String) :
    (vs.read kind name).1 = parseFirst vs.pairs kind name := by
  obtain ⟨entries⟩ := vs
  induction entries with
  | nil => rfl
  | cons v rest ih =>
      have hv : v.Sound := h v List.mem_cons_self
      have hrest : (⟨rest⟩ : Variables).Sound := fun w hw => h w (List.mem_cons_of_mem v hw)
      have pairs : pairs ⟨v :: rest⟩ = (v.name, v.value) :: Variables.pairs ⟨rest⟩ := rfl
      rw [pairs, parseFirst, List.lookup_cons]
      by_cases found : v.name = name
      · subst found
        rw [read_cons_of_eq rfl, Variable.fst_read hv, beq_self_eq_true, ← parse_eq_readFresh]
      · have differs : (name == v.name) = false := beq_false_of_ne (Ne.symm found)
        rw [read_cons_of_ne found, differs]
        exact ih hrest

end Variables

inductive Inquiry where
  | string (name : String)
  | number (kind : NumberKind) (name : String)
  | present (name : String)
  | copy
deriving DecidableEq, Repr

inductive Answer where
  | string (value : Option String)
  | number (value : Except VariableError (Option Number))
  | present (isPresent : Bool)
  | copy (pairs : List (String × String))

/-- The answer to an inquiry by the pairs alone: of several with one name the first counts. -/
def Inquiry.answer (pairs : List (String × String)) : Inquiry → Answer
  | .string name => .string (pairs.lookup name)
  | .number kind name => .number (Variables.parseFirst pairs kind name)
  | .present name => .present (pairs.any fun pair => pair.1 == name)
  | .copy => .copy pairs

namespace Variables

variable {vs : Variables}

def ask (vs : Variables) : Inquiry → Answer × Variables
  | .string name => (.string (vs.get? name), vs)
  | .number kind name => (.number (vs.read kind name).1, (vs.read kind name).2)
  | .present name => (.present (vs.contains name), vs)
  | .copy => (.copy vs.pairs, vs)

theorem contains_eq (vs : Variables) (name : String) :
    vs.contains name = vs.pairs.any fun pair => pair.1 == name := by
  rw [contains, get?]
  induction vs.pairs with
  | nil => rfl
  | cons pair rest ih =>
      rw [List.lookup_cons, List.any_cons, ← ih, BEq.comm]
      cases pair.1 == name <;> rfl

theorem fst_ask (h : vs.Sound) (q : Inquiry) : (vs.ask q).1 = q.answer vs.pairs := by
  cases q with
  | string name => rfl
  | number kind name => exact congrArg Answer.number (fst_read h kind name)
  | present name => exact congrArg Answer.present (contains_eq vs name)
  | copy => rfl

theorem sound_snd_ask (h : vs.Sound) (q : Inquiry) : (vs.ask q).2.Sound := by
  cases q with
  | string name => exact h
  | number kind name => exact sound_snd_read h kind name
  | present name => exact h
  | copy => exact h

theorem pairs_snd_ask (vs : Variables) (q : Inquiry) : (vs.ask q).2.pairs = vs.pairs := by
  cases q with
  | string name => rfl
  | number kind name => exact pairs_snd_read vs kind name
  | present name => rfl
  | copy => rfl

end Variables

/-- Inquiries one after another, each through one of the handles that there are by then. A copy of a
handle is one more. -/
inductive Session : Nat → Type where
  | done {n : Nat} : Session n
  | ask {n : Nat} (handle : Fin n) (q : Inquiry) (rest : Session n) : Session n
  | copy {n : Nat} (handle : Fin n) (rest : Session (n + 1)) : Session n

namespace Session

variable {n : Nat}

def inquiries {n : Nat} : Session n → List Inquiry
  | .done => []
  | .ask _ q rest => q :: rest.inquiries
  | .copy _ rest => .copy :: rest.inquiries

/-- The answers, where each handle refers to a place in memory and a copy to the place of the handle
that it is a copy of. -/
def answers {n : Nat} : Session n → Vector Nat n → (Nat → Variables) → List Answer
  | .done, _, _ => []
  | .ask handle q rest, places, memory =>
      let place := places[handle]
      let reply := (memory place).ask q
      reply.1 :: rest.answers places (Function.update memory place reply.2)
  | .copy handle rest, places, memory =>
      let place := places[handle]
      ((memory place).ask .copy).1 :: rest.answers (places.push place) memory

structure Holds (pairs : List (String × String)) (vs : Variables) : Prop where
  sound : vs.Sound
  pairs_eq : vs.pairs = pairs

variable {pairs : List (String × String)} {vs : Variables}

theorem Holds.fst_ask (h : Holds pairs vs) (q : Inquiry) : (vs.ask q).1 = q.answer pairs := by
  rw [Variables.fst_ask h.sound, h.pairs_eq]

theorem Holds.snd_ask (h : Holds pairs vs) (q : Inquiry) : Holds pairs (vs.ask q).2 :=
  ⟨Variables.sound_snd_ask h.sound q, (Variables.pairs_snd_ask vs q).trans h.pairs_eq⟩

theorem holds_ofPairs (pairs : List (String × String)) : Holds pairs (.ofPairs pairs) :=
  ⟨Variables.sound_ofPairs pairs, Variables.pairs_ofPairs pairs⟩

theorem holds_update {places : Vector Nat n} {memory : Nat → Variables}
    (h : ∀ place ∈ places, Holds pairs (memory place)) {place : Nat} (hplace : place ∈ places)
    (q : Inquiry) :
    ∀ other ∈ places,
      Holds pairs (Function.update memory place ((memory place).ask q).2 other) := by
  intro other hother
  by_cases same : other = place
  · subst same
    rw [Function.update_self]
    exact (h other hother).snd_ask q
  · rw [Function.update_of_ne same]
    exact h other hother

theorem answers_of_holds {places : Vector Nat n} {memory : Nat → Variables} (session : Session n)
    (h : ∀ place ∈ places, Holds pairs (memory place)) :
    session.answers places memory = session.inquiries.map (Inquiry.answer pairs) := by
  induction session generalizing memory with
  | done => rfl
  | ask handle q rest ih =>
      have hplace : places[handle] ∈ places := Vector.getElem_mem handle.isLt
      rw [answers, inquiries, List.map_cons, (h _ hplace).fst_ask, ih (holds_update h hplace q)]
  | copy handle rest ih =>
      have hplace : places[handle] ∈ places := Vector.getElem_mem handle.isLt
      have hcopies : ∀ place ∈ places.push places[handle], Holds pairs (memory place) := by
        intro place mem
        rcases Vector.mem_push.mp mem with mem | rfl
        · exact h place mem
        · exact h _ hplace
      rw [answers, inquiries, List.map_cons, (h _ hplace).fst_ask, ih hcopies]

end Session

/-- Every inquiry in a session gets the answer that a fresh set gives to it, which is the one by
the pairs alone. So an answer does not depend on what was asked before, and whether through the same
handle or through a copy. -/
theorem answers_eq_fresh (pairs : List (String × String)) (memory : Nat → Variables) (place : Nat)
    (session : Session 1) :
    session.answers #v[place] (Function.update memory place (.ofPairs pairs)) =
        session.inquiries.map (fun q => ((Variables.ofPairs pairs).ask q).1) ∧
      ∀ q, ((Variables.ofPairs pairs).ask q).1 = q.answer pairs := by
  have fresh (q : Inquiry) := (Session.holds_ofPairs pairs).fst_ask q
  refine ⟨?_, fresh⟩
  simp only [fresh]
  apply Session.answers_of_holds
  intro other hother
  obtain rfl : other = place := by simpa using hother
  rw [Function.update_self]
  exact Session.holds_ofPairs pairs

end HttpRouting
