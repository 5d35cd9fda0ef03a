import HttpRouting.Proofs.Router.Table
import HttpRouting.Router.Lazy
import Mathlib.Logic.Function.Basic

/-!
# Threads that share a lazy router

Any number of threads register routes, ask whether the router is initialized, and ask for the router
or for an answer. A registration is one step. A question enters the cell of the router if nothing is
published, takes the pending registrations, builds and publishes. Between the taking and the
publishing the cell is empty and the registrations are gone; the thread inside holds the table.
-/

namespace HttpRouting

variable {η τ : Type}

def LazyRouter.tryRegister (l : LazyRouter η) (r : Registration η) :
    Except RegistrationError Unit × LazyRouter η :=
  match l.register r.template r.methods r.handler with
  | .ok l => (.ok (), l)
  | .error e => (.error e, l)

theorem LazyRouter.tryRegister_of_pending (b : Builder η) (r : Registration η) :
    tryRegister { pending := some b } r =
      match b.register r.template r.methods r.handler with
      | .ok b => (.ok (), { pending := some b })
      | .error e => (.error e, { pending := some b }) := by
  rw [tryRegister, register]
  dsimp only
  cases b.register r.template r.methods r.handler <;> rfl

theorem LazyRouter.tryRegister_of_taken {l : LazyRouter η} (h : l.pending = none)
    (r : Registration η) : l.tryRegister r = (.error .alreadyInitialized, l) := by
  rw [tryRegister, register_of_taken h]

@[simp] theorem LazyRouter.published_tryRegister (l : LazyRouter η) (r : Registration η) :
    (l.tryRegister r).2.published = l.published := by
  rw [tryRegister, register]
  cases l.pending with
  | none => rfl
  | some b =>
      dsimp only
      cases b.register r.template r.methods r.handler <;> rfl

inductive Question where
  | init
  | routing (m : Method) (path : String)

inductive Reply (η : Type) where
  | router (table : Router η)
  | routing (answer : Routing η)

def Question.reply (table : Router η) : Question → Reply η
  | .init => .router table
  | .routing m path => .routing (table.routing m path)

/-- Where a thread stands in such a call: it has not entered the cell, it is inside, or it is inside
with the table that it has built. -/
inductive Phase (η : Type) where
  | idle
  | waiting (q : Question)
  | inside (q : Question)
  | holding (q : Question) (table : Router η)

def Phase.inCell : Phase η → Bool
  | .inside _ | .holding _ _ => true
  | .idle | .waiting _ => false

/-- A lazy router, the thread inside its cell, and where each thread stands. -/
structure Shared (τ η : Type) where
  router : LazyRouter η
  owner : Option τ
  phase : τ → Phase η

namespace Shared

def start (config : Config) : Shared τ η := ⟨.new config, none, fun _ => .idle⟩

/-- How far a lazy router is: its registrations are pending, a thread holds the table, or the table
is published. -/
inductive Stage (b : Builder η) : List (Router η) → Shared τ η → Prop where
  | pending {s : Shared τ η} (router : s.router = { pending := some b })
      (unheld : ∀ t q table, s.phase t ≠ .holding q table) : Stage b [] s
  | held {s : Shared τ η} (t : τ) (q : Question) (router : s.router = { pending := none })
      (owner : s.owner = some t) (holding : s.phase t = .holding q b.build) :
      Stage b [b.build] s
  | published {s : Shared τ η}
      (router : s.router = { pending := none, published := some b.build })
      (free : s.owner = none) : Stage b [b.build] s

theorem Stage.built_eq {b : Builder η} {built : List (Router η)} {s : Shared τ η}
    (stage : Stage b built s) : built = [] ∨ built = [b.build] := by
  cases stage with
  | pending => exact .inl rfl
  | held => exact .inr rfl
  | published => exact .inr rfl

/-- A lazy router at a stage whose cell is owned by every thread inside. -/
structure Consistent (b : Builder η) (built : List (Router η)) (s : Shared τ η) : Prop where
  stage : Stage b built s
  owner_eq : ∀ t, (s.phase t).inCell = true → s.owner = some t

theorem consistent_start (config : Config) :
    Consistent { config := config } [] (start config : Shared τ η) where
  stage := .pending rfl (by simp [start])
  owner_eq := by simp [start, Phase.inCell]

namespace Consistent

variable {b : Builder η} {built : List (Router η)} {s : Shared τ η} {t : τ} {q : Question}
  {table : Router η}

theorem pending_of_inside (h : Consistent b built s) (hphase : s.phase t = .inside q) :
    built = [] ∧ s.router = { pending := some b } := by
  have howner := h.owner_eq t (by rw [hphase]; rfl)
  cases h.stage with
  | pending router unheld => exact ⟨rfl, router⟩
  | held t' q' router owner holding =>
      rw [howner] at owner
      cases owner
      rw [hphase] at holding
      cases holding
  | published router free =>
      rw [howner] at free
      cases free

theorem held_of_holding (h : Consistent b built s) (hphase : s.phase t = .holding q table) :
    built = [b.build] ∧ table = b.build ∧ s.router = { pending := none } := by
  have howner := h.owner_eq t (by rw [hphase]; rfl)
  cases h.stage with
  | pending router unheld => exact absurd hphase (unheld t q table)
  | held t' q' router owner holding =>
      rw [howner] at owner
      cases owner
      rw [hphase] at holding
      cases holding
      exact ⟨rfl, rfl, router⟩
  | published router free =>
      rw [howner] at free
      cases free

theorem built_of_published (h : Consistent b built s)
    (published : s.router.published = some table) :
    built = [b.build] ∧ table = b.build := by
  cases h.stage with
  | pending router unheld =>
      rw [router] at published
      cases published
  | held t q router owner holding =>
      rw [router] at published
      cases published
  | published router free =>
      rw [router] at published
      cases published
      exact ⟨rfl, rfl⟩

theorem pending_eq_none (h : Consistent b built s) (hbuilt : built ≠ []) :
    s.router.pending = none := by
  cases h.stage with
  | pending router unheld => exact absurd rfl hbuilt
  | held t q router owner holding => rw [router]
  | published router free => rw [router]

theorem tryRegister_of_built (h : Consistent b built s) (hbuilt : built ≠ [])
    (r : Registration η) : s.router.tryRegister r = (.error .alreadyInitialized, s.router) :=
  LazyRouter.tryRegister_of_taken (h.pending_eq_none hbuilt) r

theorem fst_tryRegister (h : Consistent b [] s) (r : Registration η) :
    (s.router.tryRegister r).1 = (Pattern.compile r.template).map fun _ => () := by
  obtain ⟨⟨router, unheld⟩, -⟩ := h
  rw [router, LazyRouter.tryRegister_of_pending, Builder.register]
  cases Pattern.compile r.template <;> rfl

theorem register (h : Consistent b built s) (r : Registration η) :
    (built = [] ∧ ∃ b', b.register r.template r.methods r.handler = .ok b' ∧
      (s.router.tryRegister r).1 = .ok () ∧
      Consistent b' [] { s with router := (s.router.tryRegister r).2 }) ∨
    (∃ e, (s.router.tryRegister r).1 = .error e) ∧ (s.router.tryRegister r).2 = s.router := by
  by_cases hbuilt : built = []
  · subst hbuilt
    obtain ⟨⟨router, unheld⟩, owner_eq⟩ := h
    rw [router, LazyRouter.tryRegister_of_pending]
    cases hr : b.register r.template r.methods r.handler with
    | ok b' => exact .inl ⟨rfl, b', rfl, rfl, .pending rfl unheld, owner_eq⟩
    | error e => exact .inr ⟨⟨e, rfl⟩, rfl⟩
  · rw [h.tryRegister_of_built hbuilt]
    exact .inr ⟨⟨_, rfl⟩, rfl⟩

end Consistent

variable [DecidableEq τ]

def move (s : Shared τ η) (t : τ) (phase : Phase η) : Shared τ η :=
  { s with phase := Function.update s.phase t phase }

@[simp] theorem router_move (s : Shared τ η) (t : τ) (phase : Phase η) :
    (s.move t phase).router = s.router := rfl

@[simp] theorem phase_move_self (s : Shared τ η) (t : τ) (phase : Phase η) :
    (s.move t phase).phase t = phase := Function.update_self ..

@[simp] theorem move_move (s : Shared τ η) (t : τ) (phase phase' : Phase η) :
    (s.move t phase).move t phase' = s.move t phase' := by
  simp [move]

theorem move_phase_self {s : Shared τ η} {t : τ} {phase : Phase η} (h : s.phase t = phase) :
    s.move t phase = s := by
  rw [move, ← h, Function.update_eq_self]

theorem phase_move_of_ne (s : Shared τ η) {t t' : τ} (h : t' ≠ t) (phase : Phase η) :
    (s.move t phase).phase t' = s.phase t' := Function.update_of_ne h ..

namespace Consistent

variable {b : Builder η} {built : List (Router η)} {s : Shared τ η} {t : τ} {q : Question}

theorem move (h : Consistent b built s) (outside : (s.phase t).inCell = false) {phase : Phase η}
    (outside' : phase.inCell = false) : Consistent b built (s.move t phase) where
  stage := by
    cases h.stage with
    | pending router unheld =>
        refine .pending router ?_
        intro t' q table hphase
        by_cases ht : t' = t
        · rw [ht, phase_move_self] at hphase
          rw [hphase] at outside'
          cases outside'
        · rw [phase_move_of_ne s ht] at hphase
          exact unheld t' q table hphase
    | held t' q router owner holding =>
        have ht : t' ≠ t := by
          rintro rfl
          rw [holding] at outside
          cases outside
        exact .held t' q router owner (by rw [phase_move_of_ne s ht, holding])
    | published router free => exact .published router free
  owner_eq := by
    intro t' hcell
    by_cases ht : t' = t
    · rw [ht, phase_move_self, outside'] at hcell
      cases hcell
    · rw [phase_move_of_ne s ht] at hcell
      exact h.owner_eq t' hcell

theorem enter (h : Consistent b built s) (unpublished : s.router.published = none)
    (free : s.owner = none) (t : τ) (q : Question) :
    Consistent b built { s.move t (.inside q) with owner := some t } where
  stage := by
    cases h.stage with
    | pending router unheld =>
        refine .pending router ?_
        intro t' q' table hphase
        by_cases ht : t' = t
        · rw [ht] at hphase
          cases (phase_move_self s t (.inside q)).symm.trans hphase
        · exact unheld t' q' table ((phase_move_of_ne s ht _).symm.trans hphase)
    | held t' q' router owner holding =>
        rw [free] at owner
        cases owner
    | published router _ =>
        rw [router] at unpublished
        cases unpublished
  owner_eq := by
    intro t' hcell
    by_cases ht : t' = t
    · rw [ht]
    · change ((s.move t (.inside q)).phase t').inCell = true at hcell
      rw [phase_move_of_ne s ht] at hcell
      have howner := h.owner_eq t' hcell
      rw [free] at howner
      cases howner

theorem take (h : Consistent b built s) (hphase : s.phase t = .inside q) :
    built = [] ∧ s.router.pending = some b ∧ s.router.take.1 = b.build ∧
      Consistent b [b.build] { s.move t (.holding q b.build) with router := s.router.take.2 } := by
  obtain ⟨hbuilt, hrouter⟩ := h.pending_of_inside hphase
  have howner := h.owner_eq t (by rw [hphase]; rfl)
  refine ⟨hbuilt, by rw [hrouter], by rw [hrouter]; rfl, ?_, ?_⟩
  · exact .held t q (by rw [hrouter]; rfl) howner (phase_move_self s t _)
  · intro t' hcell
    by_cases ht : t' = t
    · rw [ht]
      exact howner
    · change ((s.move t (.holding q b.build)).phase t').inCell = true at hcell
      rw [phase_move_of_ne s ht] at hcell
      exact h.owner_eq t' hcell

theorem publish (h : Consistent b built s) {table : Router η}
    (hphase : s.phase t = .holding q table) :
    built = [b.build] ∧ (s.router.publish table).published = some b.build ∧
      Consistent b [b.build]
        { s.move t (.waiting q) with router := s.router.publish table, owner := none } := by
  obtain ⟨hbuilt, rfl, hrouter⟩ := h.held_of_holding hphase
  have howner := h.owner_eq t (by rw [hphase]; rfl)
  refine ⟨hbuilt, by rw [hrouter]; rfl, .published (by rw [hrouter]; rfl) rfl, ?_⟩
  intro t' hcell
  change ((s.move t (.waiting q)).phase t').inCell = true at hcell
  by_cases ht : t' = t
  · rw [ht, phase_move_self] at hcell
    cases hcell
  · rw [phase_move_of_ne s ht] at hcell
    have howner' := h.owner_eq t' hcell
    rw [howner] at howner'
    exact absurd (Option.some.inj howner').symm ht

end Consistent

inductive Event (τ η : Type) where
  | registered (t : τ) (r : Registration η) (result : Except RegistrationError Unit)
  | checked (t : τ) (answer : Bool)
  | asked (t : τ) (q : Question)
  | entered (t : τ)
  | took (t : τ) (pending : Option (Builder η)) (table : Router η)
  | published (t : τ)
  | answered (t : τ) (q : Question) (reply : Reply η)

inductive Step : Shared τ η → Event τ η → Shared τ η → Prop where
  | register {s : Shared τ η} {t : τ} (r : Registration η) (h : s.phase t = .idle) :
      Step s (.registered t r (s.router.tryRegister r).1)
        { s with router := (s.router.tryRegister r).2 }
  | check {s : Shared τ η} {t : τ} (h : s.phase t = .idle) :
      Step s (.checked t s.router.isInitialized) s
  | ask {s : Shared τ η} {t : τ} (q : Question) (h : s.phase t = .idle) :
      Step s (.asked t q) (s.move t (.waiting q))
  | enter {s : Shared τ η} {t : τ} {q : Question} (h : s.phase t = .waiting q)
      (unpublished : s.router.published = none) (free : s.owner = none) :
      Step s (.entered t) { s.move t (.inside q) with owner := some t }
  | take {s : Shared τ η} {t : τ} {q : Question} (h : s.phase t = .inside q) :
      Step s (.took t s.router.pending s.router.take.1)
        { s.move t (.holding q s.router.take.1) with router := s.router.take.2 }
  | publish {s : Shared τ η} {t : τ} {q : Question} {table : Router η}
      (h : s.phase t = .holding q table) :
      Step s (.published t)
        { s.move t (.waiting q) with router := s.router.publish table, owner := none }
  | answer {s : Shared τ η} {t : τ} {q : Question} {table : Router η}
      (h : s.phase t = .waiting q) (published : s.router.published = some table) :
      Step s (.answered t q (q.reply table)) (s.move t .idle)

/-- The events and the last state of a run; any thread may take the next step. -/
inductive Run (config : Config) : List (Event τ η) → Shared τ η → Prop where
  | start : Run config [] (.start config)
  | step {history : List (Event τ η)} {s s' : Shared τ η} {e : Event τ η}
      (run : Run config history s) (step : Step s e s') : Run config (history ++ [e]) s'

/-- A question that no other thread disturbs does what `LazyRouter.init` does. -/
theorem Run.question {config : Config} {history : List (Event τ η)} {s : Shared τ η}
    (run : Run config history s) {t : τ} (hphase : s.phase t = .idle) (free : s.owner = none)
    (q : Question) :
    ∃ events, Run config (history ++ events) { s with router := s.router.init.2 } ∧
      .answered t q (q.reply s.router.init.1) ∈ events := by
  cases hpublished : s.router.published with
  | some table =>
      have hinit : s.router.init = (table, s.router) := by rw [LazyRouter.init, hpublished]
      have run := (run.step (.ask q hphase)).step (.answer (phase_move_self s t _) hpublished)
      rw [move_move, move_phase_self hphase, List.append_assoc] at run
      rw [hinit]
      exact ⟨_, run, by simp⟩
  | none =>
      obtain ⟨table, taken, htake⟩ : ∃ table taken, s.router.take = (table, taken) := ⟨_, _, rfl⟩
      have hinit : s.router.init = (table, taken.publish table) := by
        rw [LazyRouter.init, hpublished, htake]
      have hlast : (taken.publish table).published = some table := by
        have h := LazyRouter.published_init s.router
        rwa [hinit] at h
      have entered : Step (s.move t (.waiting q)) (.entered t)
          ⟨s.router, some t, Function.update s.phase t (.inside q)⟩ := by
        have step := Step.enter (phase_move_self s t (.waiting q)) hpublished free
        rwa [move_move] at step
      have took : Step ⟨s.router, some t, Function.update s.phase t (.inside q)⟩
          (.took t s.router.pending table)
          ⟨taken, some t, Function.update s.phase t (.holding q table)⟩ := by
        have step := Step.take (phase_move_self { s with owner := some t } t (.inside q))
        simp only [move_move, router_move, htake] at step
        exact step
      have published : Step ⟨taken, some t, Function.update s.phase t (.holding q table)⟩
          (.published t) ⟨taken.publish table, none, Function.update s.phase t (.waiting q)⟩ := by
        have step := Step.publish (phase_move_self ⟨taken, some t, s.phase⟩ t (.holding q table))
        simp only [move_move] at step
        exact step
      have answered : Step ⟨taken.publish table, none, Function.update s.phase t (.waiting q)⟩
          (.answered t q (q.reply table)) { s with router := taken.publish table } := by
        have step := Step.answer
          (phase_move_self ⟨taken.publish table, none, s.phase⟩ t (.waiting q)) hlast
        have back : move ⟨taken.publish table, none, s.phase⟩ t .idle =
            ⟨taken.publish table, none, s.phase⟩ := move_phase_self hphase
        rw [move_move, back] at step
        rw [free]
        exact step
      have built := ((run.step (.ask q hphase)).step entered).step took
      have run := (built.step published).step answered
      simp only [List.append_assoc] at run
      rw [hinit]
      exact ⟨_, run, by simp⟩

end Shared

end HttpRouting
