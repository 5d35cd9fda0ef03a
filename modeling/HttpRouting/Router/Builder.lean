import HttpRouting.Router.Basic

/-!
# Building routers

Definitions are collected in two lists, those without variables and those with. A router has one
path route for each list of segments, in the order of first registration, the fixed ones before
those with variables.
-/

namespace HttpRouting

variable {η : Type}

inductive Verb where
  | get
  | post
  | put
  | patch
  | delete
  | head
  | options
  | any
deriving DecidableEq, Repr

def Verb.methods : Verb → MethodSet
  | .get => .only [.get]
  | .post => .only [.post]
  | .put => .only [.put]
  | .patch => .only [.patch]
  | .delete => .only [.delete]
  | .head => .only [.head]
  | .options => .only [.options]
  | .any => .any

structure RouteItem (η : Type) where
  methods : MethodSet
  handler : η

namespace RouteItem

def ofVerb (verb : Verb) (handler : η) : RouteItem η := ⟨verb.methods, handler⟩

def or (item : RouteItem η) (m : Method) : RouteItem η :=
  { item with methods := item.methods.insert m }

def describe (item : RouteItem η) : String :=
  Text.openRecord "MethodRouteBuilder" [("methods", item.methods.describe)]

end RouteItem

structure Group (η : Type) where
  first : Definition η
  rest : List (Definition η) := []

namespace Group

def toList (g : Group η) : List (Definition η) := g.first :: g.rest

/-- Adds a definition to the group of its key, or as a group of its own at the end. -/
def place (d : Definition η) : List (Group η) → List (Group η)
  | [] => [⟨d, []⟩]
  | g :: rest =>
      if g.first.pattern.key = d.pattern.key then ⟨g.first, g.rest ++ [d]⟩ :: rest
      else g :: place d rest

def ofDefinitions (definitions : List (Definition η)) : List (Group η) :=
  definitions.foldl (fun groups d => place d groups) []

end Group

structure Builder (η : Type) where
  fixed : List (Definition η) := []
  patterned : List (Definition η) := []
  config : Config := {}

namespace Builder

def addDefinition (b : Builder η) (d : Definition η) : Builder η :=
  if d.pattern.hasVariables then { b with patterned := b.patterned ++ [d] }
  else { b with fixed := b.fixed ++ [d] }

def register (b : Builder η) (template : String) (methods : MethodSet) (handler : η) :
    Except RegistrationError (Builder η) :=
  (Pattern.compile template).map fun pattern => b.addDefinition ⟨pattern, methods, handler⟩

/-- Registers a handler for the listed methods, or for every method if none is listed. -/
def add (b : Builder η) (template : String) (methods : List Method) (handler : η) :
    Except RegistrationError (Builder η) :=
  b.register template (.ofList methods) handler

def addVerb (b : Builder η) (verb : Verb) (template : String) (handler : η) :
    Except RegistrationError (Builder η) :=
  b.register template verb.methods handler

def route (b : Builder η) (template : String) (item : RouteItem η) :
    Except RegistrationError (Builder η) :=
  b.register template item.methods item.handler

def setConfig (b : Builder η) (config : Config) : Builder η := { b with config := config }

def setPolicy (b : Builder η) (policy : Policy) : Builder η :=
  { b with config := { b.config with policy := policy } }

def size (b : Builder η) : Nat := b.fixed.length + b.patterned.length

def table (b : Builder η) : List (PathRoute η) :=
  (Group.ofDefinitions b.fixed ++ Group.ofDefinitions b.patterned).mapIdx fun order g =>
    PathRoute.ofDefinitions order g.first g.rest

def build (b : Builder η) : Router η :=
  Router.ofRoutes (b.config.resolve b.table.length) b.table b.size

def describe (b : Builder η) : String :=
  Text.record "RouterBuilder" [("fixed", Text.list (b.fixed.map Definition.describe)),
    ("variable", Text.list (b.patterned.map Definition.describe)),
    ("config", b.config.describe)]

@[simp] theorem size_addDefinition (b : Builder η) (d : Definition η) :
    (b.addDefinition d).size = b.size + 1 := by
  unfold addDefinition size
  split <;> simp <;> omega

@[simp] theorem pathRoutes_build (b : Builder η) : b.build.pathRoutes = b.table := by
  simp [build]

end Builder

end HttpRouting
