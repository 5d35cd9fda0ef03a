import HttpRouting.Proofs.Router.Registration

/-!
# Calls on a builder

A builder is changed in place by calls that register a route, which may fail, and by calls that set
its configuration. A registration reads the template before it adds a definition, so one that fails
leaves nothing behind. A sequence of calls builds the router of its successful registrations under
the settings that were made last.
-/

namespace HttpRouting

variable {η : Type}

/-- What is done to a builder in place. What was done before a failure stays done. -/
abbrev Edit (η : Type) : Type → Type := ExceptT RegistrationError (StateM (Builder η))

def Edit.register (template : String) (methods : MethodSet) (handler : η) : Edit η Unit := do
  let pattern ← ofExcept (Pattern.compile template)
  modify fun b => b.addDefinition ⟨pattern, methods, handler⟩

inductive Call (η : Type) where
  | add (template : String) (methods : List Method) (handler : η)
  | addVerb (verb : Verb) (template : String) (handler : η)
  | route (template : String) (item : RouteItem η)
  | setConfig (config : Config)
  | setPolicy (policy : Policy)

namespace Call

def edit : Call η → Edit η Unit
  | .add template methods handler => Edit.register template (.ofList methods) handler
  | .addVerb verb template handler => Edit.register template verb.methods handler
  | .route template item => Edit.register template item.methods item.handler
  | .setConfig config => modify fun b => b.setConfig config
  | .setPolicy policy => modify fun b => b.setPolicy policy

/-- The builder that a call makes of another one. -/
def result (b : Builder η) : Call η → Except RegistrationError (Builder η)
  | .add template methods handler => b.add template methods handler
  | .addVerb verb template handler => b.addVerb verb template handler
  | .route template item => b.route template item
  | .setConfig config => .ok (b.setConfig config)
  | .setPolicy policy => .ok (b.setPolicy policy)

def registration? : Call η → Option (Registration η)
  | .add template methods handler => some ⟨template, .ofList methods, handler⟩
  | .addVerb verb template handler => some ⟨template, verb.methods, handler⟩
  | .route template item => some ⟨template, item.methods, item.handler⟩
  | .setConfig _ | .setPolicy _ => none

def policy? : Call η → Option Policy
  | .setConfig config => some config.policy
  | .setPolicy policy => some policy
  | _ => none

def threshold? : Call η → Option Nat
  | .setConfig config => some config.threshold
  | _ => none

end Call

def Config.after (config : Config) (calls : List (Call η)) : Config where
  policy := (calls.filterMap Call.policy?).getLast?.getD config.policy
  threshold := (calls.filterMap Call.threshold?).getLast?.getD config.threshold

theorem Config.after_cons (config : Config) (call : Call η) (calls : List (Call η)) :
    config.after (call :: calls) = (config.after [call]).after calls := by
  cases call <;> simp [after, Call.policy?, Call.threshold?, List.getLast?_cons]

namespace Builder

/-- What a call answers and what the builder is after it. -/
def perform (b : Builder η) (call : Call η) : Except RegistrationError Unit × Builder η :=
  call.edit.run.run b

def performAll (b : Builder η) (calls : List (Call η)) : Builder η :=
  calls.foldl (fun b call => (b.perform call).2) b

/-- The registrations among calls that are made one after another and answered without an error. -/
def accepted : Builder η → List (Call η) → List (Registration η)
  | _, [] => []
  | b, call :: calls =>
      (if (b.perform call).1.isOk then call.registration?.toList else []) ++
        accepted (b.perform call).2 calls

theorem run_register (b : Builder η) (template : String) (methods : MethodSet) (handler : η) :
    (Edit.register template methods handler).run.run b =
      match b.register template methods handler with
      | .ok b' => (.ok (), b')
      | .error e => (.error e, b) := by
  rw [Edit.register, register]
  cases Pattern.compile template <;> rfl

theorem perform_eq (b : Builder η) (call : Call η) : b.perform call =
    match call.result b with
    | .ok b' => (.ok (), b')
    | .error e => (.error e, b) := by
  cases call with
  | add template methods handler => exact b.run_register template _ handler
  | addVerb verb template handler => exact b.run_register template _ handler
  | route template item => exact b.run_register template _ item.handler
  | setConfig config => rfl
  | setPolicy policy => rfl

theorem result_of_registers {call : Call η} {r : Registration η} (h : call.registration? = some r)
    (b : Builder η) : call.result b = b.register r.template r.methods r.handler := by
  cases call <;> cases h <;> rfl

theorem result_of_sets {call : Call η} (h : call.registration? = none) (b : Builder η) :
    call.result b = .ok (b.setConfig (b.config.after [call])) := by
  cases call <;> cases h <;> rfl

theorem perform_eq_error_iff {b : Builder η} {call : Call η} {e : RegistrationError} :
    (b.perform call).1 = .error e ↔
      ∃ r, call.registration? = some r ∧ Pattern.compile r.template = .error e := by
  rw [perform_eq]
  cases h : call.registration? with
  | none => simp [result_of_sets h]
  | some r =>
      rw [result_of_registers h, register]
      cases hc : Pattern.compile r.template <;> simp [Except.map, hc]

theorem eq_of_perform_eq_error {b : Builder η} {call : Call η} {e : RegistrationError}
    (h : (b.perform call).1 = .error e) : (b.perform call).2 = b := by
  rw [perform_eq] at h ⊢
  cases hr : call.result b with
  | ok b' =>
      rw [hr] at h
      cases h
  | error e' => rfl

theorem snd_perform (b : Builder η) (call : Call η) : ∃ definitions : List (Definition η),
    (if (b.perform call).1.isOk then call.registration?.toList else []) =
      definitions.map Definition.registration ∧
    (b.perform call).2 = (definitions.foldl addDefinition b).setConfig (b.config.after [call]) := by
  rw [perform_eq]
  cases h : call.registration? with
  | none =>
      rw [result_of_sets h]
      exact ⟨[], rfl, rfl⟩
  | some r =>
      have kept : b.config.after [call] = b.config := by cases call <;> cases h <;> rfl
      rw [result_of_registers h, kept]
      cases hr : b.register r.template r.methods r.handler with
      | ok b' =>
          obtain ⟨d, hd, rfl⟩ := register_eq_ok_iff.mp hr
          have config : (b.addDefinition d).setConfig b.config = b.addDefinition d := by
            rw [← b.config_foldl_addDefinition [d]]
            rfl
          exact ⟨[d], by rw [r.eq_registration hd]; rfl, config.symm⟩
      | error e => exact ⟨[], rfl, rfl⟩

theorem foldl_addDefinition_setConfig (b : Builder η) (config : Config)
    (definitions : List (Definition η)) :
    definitions.foldl addDefinition (b.setConfig config) =
      (definitions.foldl addDefinition b).setConfig config := by
  induction definitions generalizing b with
  | nil => rfl
  | cons d rest ih =>
      have commutes : (b.setConfig config).addDefinition d =
          (b.addDefinition d).setConfig config := by
        unfold addDefinition setConfig
        split <;> rfl
      rw [List.foldl_cons, commutes, ih, List.foldl_cons]

/-- A sequence of calls adds the definitions of its successful registrations, and makes its
settings. -/
theorem performAll_eq (b : Builder η) (calls : List (Call η)) :
    ∃ definitions : List (Definition η),
      b.accepted calls = definitions.map Definition.registration ∧
      b.performAll calls =
        (definitions.foldl addDefinition b).setConfig (b.config.after calls) := by
  induction calls generalizing b with
  | nil => exact ⟨[], rfl, rfl⟩
  | cons call calls ih =>
      obtain ⟨first, hfirst, hnext⟩ := b.snd_perform call
      obtain ⟨others, hothers, hlast⟩ := ih (b.perform call).2
      refine ⟨first ++ others, ?_, ?_⟩
      · rw [accepted, hfirst, hothers, List.map_append]
      · have config : (b.perform call).2.config = b.config.after [call] := by
          rw [hnext]
          rfl
        calc b.performAll (call :: calls)
            = (others.foldl addDefinition (b.perform call).2).setConfig
                ((b.perform call).2.config.after calls) := hlast
          _ = ((others.foldl addDefinition (first.foldl addDefinition b)).setConfig
                (b.config.after [call])).setConfig ((b.config.after [call]).after calls) := by
              rw [config, hnext, foldl_addDefinition_setConfig]
          _ = ((first ++ others).foldl addDefinition b).setConfig
                (b.config.after (call :: calls)) := by
              rw [List.foldl_append, b.config.after_cons call calls]
              rfl

theorem size_performAll (calls : List (Call η)) :
    (performAll {} calls).size = (accepted {} calls).length := by
  obtain ⟨definitions, hregistrations, hbuilder⟩ := performAll_eq {} calls
  have size := size_foldl_addDefinition ({} : Builder η) definitions
  rw [hregistrations, hbuilder, List.length_map]
  exact size.trans (Nat.zero_add _)

/-- A call fails exactly if it registers a template that does not compile, and then it leaves the
builder as it was. At every point the builder counts the registrations that succeeded. In the end it
builds the router of these registrations alone under the settings that were made last. -/
theorem failed_calls_leave_no_trace (calls : List (Call η)) :
    (∀ (b : Builder η) (call : Call η) (e : RegistrationError),
      ((b.perform call).1 = .error e ↔
        ∃ r, call.registration? = some r ∧ Pattern.compile r.template = .error e) ∧
      ((b.perform call).1 = .error e → (b.perform call).2 = b)) ∧
    (∀ n, (performAll {} (calls.take n)).size = (accepted {} (calls.take n)).length) ∧
    ∃ b, registerAll {} (accepted {} calls) = .ok b ∧
      (performAll {} calls).build = (b.setConfig (Config.after {} calls)).build ∧
      (performAll {} calls).build.definitions = (accepted {} calls).length := by
  refine ⟨fun b call e => ⟨perform_eq_error_iff, eq_of_perform_eq_error⟩, ?_, ?_⟩
  · intro n
    exact size_performAll (calls.take n)
  · obtain ⟨definitions, hregistrations, hbuilder⟩ := performAll_eq {} calls
    refine ⟨_, registerAll_eq_ok_iff.mpr ⟨definitions, hregistrations, rfl⟩, ?_, ?_⟩
    · rw [hbuilder]
    · rw [definitions_build, size_performAll]

/-- The failures stand between the registrations, and the threshold that is set between them makes
the table of both large enough to be searched as a tree. -/
theorem failed_calls_leave_no_trace_of_mixed : ∃ b : Builder String,
    registerAll {} [⟨"/a", .any, "page"⟩, ⟨"/\x7bid\x7d", .only [.get], "item"⟩] = .ok b ∧
    (performAll {} [.setPolicy .simple, .addVerb .any "/a" "page",
      .add "/\x7bx\x7d/\x7bx\x7d" [] "twice", .setConfig { threshold := 1 },
      .route "/\x7bid\x7d" ⟨.only [.get], "item"⟩, .add "/a\x7d" [.get] "closing"]).build =
      (b.setConfig { threshold := 1 }).build ∧
    (b.setConfig { threshold := 1 }).build.policy = .segmentTree := by
  let calls : List (Call String) := [.setPolicy .simple, .addVerb .any "/a" "page",
    .add "/\x7bx\x7d/\x7bx\x7d" [] "twice", .setConfig { threshold := 1 },
    .route "/\x7bid\x7d" ⟨.only [.get], "item"⟩, .add "/a\x7d" [.get] "closing"]
  obtain ⟨-, -, b, hb, hbuild, -⟩ := failed_calls_leave_no_trace calls
  exact ⟨b, hb, hbuild, (congrArg Router.policy hbuild).symm.trans rfl⟩

end Builder

end HttpRouting
