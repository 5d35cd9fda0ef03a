import HttpRouting.Log

/-!
# Routers that are built on first use

A lazy router takes registrations until it is first asked for its table. Then the pending
registrations are taken, built into a router, and that router is published; from the taking on every
registration is rejected, and every question is answered from the published router.
-/

namespace HttpRouting

variable {η : Type}

/-- The registrations that are still pending, if they were not taken, and the published router. -/
structure LazyRouter (η : Type) where
  pending : Option (Builder η)
  published : Option (Router η) := none

namespace LazyRouter

def new (config : Config) : LazyRouter η := { pending := some { config := config } }

/-- Registers a handler while registrations are pending. Afterwards nothing is registered, whatever
the template. -/
def register (l : LazyRouter η) (template : String) (methods : MethodSet) (handler : η) :
    Except RegistrationError (LazyRouter η) :=
  match l.pending with
  | none => .error .alreadyInitialized
  | some b => (b.register template methods handler).map fun b => { l with pending := some b }

def take (l : LazyRouter η) : Router η × LazyRouter η :=
  ((l.pending.getD {}).build, { l with pending := none })

def publish (l : LazyRouter η) (r : Router η) : LazyRouter η :=
  match l.published with
  | some _ => l
  | none => { l with published := some r }

/-- The published router, after building and publishing it if there is none. -/
def init (l : LazyRouter η) : Router η × LazyRouter η :=
  match l.published with
  | some r => (r, l)
  | none =>
      let (r, taken) := l.take
      (r, taken.publish r)

def isInitialized (l : LazyRouter η) : Bool := l.published.isSome

def registerLogged (l : LazyRouter η) (template : String) (methods : MethodSet) (handler : η) :
    Logged (Except RegistrationError (LazyRouter η)) :=
  let events :=
    match l.pending with
    | none => [.rejected methods.label template]
    | some _ => Pattern.compileEvents template
  ⟨events, l.register template methods handler⟩

def initLogged (l : LazyRouter η) : Logged (Router η × LazyRouter η) :=
  ⟨if l.isInitialized then [] else [l.init.1.event], l.init⟩

def describe? (l : LazyRouter η) : Option String :=
  let router : Option String :=
    match l.published with
    | none => some "Uninit"
    | some r => r.describe?
  router.map fun router =>
    Text.record "LazyRouter"
      [("pending", Text.openRecord "Mutex"
          [("data", Text.optional (l.pending.map Builder.describe)), ("poisoned", "false")]),
        ("router", Text.wrapped "OnceCell" router)]

theorem published_init (l : LazyRouter η) : l.init.2.published = some l.init.1 := by
  unfold init
  split
  · assumption
  · simp_all [take, publish]

theorem register_of_taken {l : LazyRouter η} (h : l.pending = none) (template : String)
    (methods : MethodSet) (handler : η) :
    l.register template methods handler = .error .alreadyInitialized := by
  simp [register, h]

end LazyRouter

end HttpRouting
