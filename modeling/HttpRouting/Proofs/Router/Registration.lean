import HttpRouting.Proofs.Pattern.Meaning
import HttpRouting.Router.Builder

/-!
# Sequences of registrations

A builder keeps every accepted registration as a definition, in one list the definitions without
variables and in the other those with variables, each in the order of registration.
-/

namespace HttpRouting

variable {η : Type}

structure Registration (η : Type) where
  template : String
  methods : MethodSet
  handler : η

def Definition.registration (d : Definition η) : Registration η :=
  ⟨d.pattern.template, d.methods, d.handler⟩

def Registration.definition? (r : Registration η) : Option (Definition η) :=
  (Pattern.compile r.template).toOption.map fun pattern => ⟨pattern, r.methods, r.handler⟩

@[simp] theorem Definition.definition?_registration (d : Definition η) :
    d.registration.definition? = some d := by
  rw [Registration.definition?, registration, Pattern.compile_template]
  rfl

theorem Registration.eq_registration {r : Registration η} {d : Definition η}
    (h : r.definition? = some d) : r = d.registration := by
  obtain ⟨pattern, hp, rfl⟩ := Option.map_eq_some_iff.mp h
  cases hc : Pattern.compile r.template with
  | error e =>
      rw [hc] at hp
      cases hp
  | ok compiled =>
      rw [hc] at hp
      cases hp
      rw [Definition.registration, Pattern.compile_eq_ok_iff.mp hc]

namespace Builder

/-- Registers one after another, until one fails. -/
def registerAll (b : Builder η) (registrations : List (Registration η)) :
    Except RegistrationError (Builder η) :=
  registrations.foldlM (fun b r => b.register r.template r.methods r.handler) b

/-- Registers one after another; a registration that fails leaves the builder as it is. -/
def registerEach (b : Builder η) (registrations : List (Registration η)) : Builder η :=
  registrations.foldl
    (fun b r => (b.register r.template r.methods r.handler).toOption.getD b) b

theorem toOption_register (b : Builder η) (r : Registration η) :
    (b.register r.template r.methods r.handler).toOption = r.definition?.map b.addDefinition := by
  rw [register, Registration.definition?]
  cases Pattern.compile r.template <;> rfl

theorem register_eq_ok_iff {b b' : Builder η} {r : Registration η} :
    b.register r.template r.methods r.handler = .ok b' ↔
      ∃ d, r.definition? = some d ∧ b' = b.addDefinition d := by
  have h := b.toOption_register r
  cases hr : b.register r.template r.methods r.handler with
  | error e =>
      rw [hr] at h
      have hnone := Option.map_eq_none_iff.mp h.symm
      simp [hnone]
  | ok built =>
      rw [hr] at h
      obtain ⟨d, hd, rfl⟩ := Option.map_eq_some_iff.mp h.symm
      simp [hd, eq_comm]

theorem registerAll_append_singleton {b b' b'' : Builder η} {registrations : List (Registration η)}
    {r : Registration η} (h : b.registerAll registrations = .ok b')
    (hr : b'.register r.template r.methods r.handler = .ok b'') :
    b.registerAll (registrations ++ [r]) = .ok b'' := by
  rw [registerAll] at h ⊢
  rw [List.foldlM_append, h]
  change b'.registerAll [r] = .ok b''
  rw [registerAll, List.foldlM_cons, hr]
  rfl

theorem registerEach_eq (b : Builder η) (registrations : List (Registration η)) :
    b.registerEach registrations =
      (registrations.filterMap Registration.definition?).foldl addDefinition b := by
  induction registrations generalizing b with
  | nil => rfl
  | cons r rest ih =>
      rw [registerEach, List.foldl_cons, ← registerEach, ih, toOption_register]
      cases hd : r.definition? with
      | none => rw [List.filterMap_cons_none hd]; rfl
      | some d => rw [List.filterMap_cons_some hd]; rfl

theorem registerAll_eq_ok_iff {b b' : Builder η} {registrations : List (Registration η)} :
    b.registerAll registrations = .ok b' ↔
      ∃ definitions : List (Definition η), registrations = definitions.map Definition.registration ∧
        b' = definitions.foldl addDefinition b := by
  constructor
  · intro h
    induction registrations generalizing b with
    | nil =>
        cases h
        exact ⟨[], rfl, rfl⟩
    | cons r rest ih =>
        rw [registerAll, List.foldlM_cons] at h
        cases hr : b.register r.template r.methods r.handler with
        | error e =>
            rw [hr] at h
            cases h
        | ok next =>
            rw [hr] at h
            obtain ⟨definitions, rfl, rfl⟩ := ih h
            obtain ⟨d, hd, rfl⟩ := register_eq_ok_iff.mp hr
            exact ⟨d :: definitions, by rw [List.map_cons, ← r.eq_registration hd], rfl⟩
  · rintro ⟨definitions, rfl, rfl⟩
    induction definitions generalizing b with
    | nil => rfl
    | cons d rest ih =>
        have hd := register_eq_ok_iff.mpr
          ⟨d, d.definition?_registration, Eq.refl (b.addDefinition d)⟩
        rw [List.map_cons, registerAll, List.foldlM_cons, hd]
        exact ih

theorem fixed_foldl_addDefinition (b : Builder η) (definitions : List (Definition η)) :
    (definitions.foldl addDefinition b).fixed =
      b.fixed ++ definitions.filter fun d => !d.pattern.hasVariables := by
  induction definitions generalizing b with
  | nil => simp
  | cons d rest ih =>
      rw [List.foldl_cons, ih, addDefinition]
      cases hd : d.pattern.hasVariables <;> simp [hd]

theorem patterned_foldl_addDefinition (b : Builder η) (definitions : List (Definition η)) :
    (definitions.foldl addDefinition b).patterned =
      b.patterned ++ definitions.filter fun d => d.pattern.hasVariables := by
  induction definitions generalizing b with
  | nil => simp
  | cons d rest ih =>
      rw [List.foldl_cons, ih, addDefinition]
      cases hd : d.pattern.hasVariables <;> simp [hd]

theorem config_foldl_addDefinition (b : Builder η) (definitions : List (Definition η)) :
    (definitions.foldl addDefinition b).config = b.config := by
  induction definitions generalizing b with
  | nil => rfl
  | cons d rest ih =>
      rw [List.foldl_cons, ih, addDefinition]
      split <;> rfl

theorem size_foldl_addDefinition (b : Builder η) (definitions : List (Definition η)) :
    (definitions.foldl addDefinition b).size = b.size + definitions.length := by
  induction definitions generalizing b with
  | nil => rfl
  | cons d rest ih =>
      rw [List.foldl_cons, ih, size_addDefinition, List.length_cons]
      omega

@[simp] theorem definitions_build (b : Builder η) : b.build.definitions = b.size := by
  unfold build Router.ofRoutes
  split <;> rfl

end Builder

end HttpRouting
