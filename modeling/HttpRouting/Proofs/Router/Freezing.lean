import HttpRouting.Proofs.Router.Sharing

/-!
# One table for all threads

However the threads of a shared lazy router interleave, one table at most is built, from exactly the
registrations that were accepted and in their order, and every answer comes from it. Registrations
are accepted until the pending ones are taken, and rejected from then on.
-/

namespace HttpRouting

variable {η τ : Type}

/-- A registration stands in the table of a router: under its segments, with its methods and its
handler. -/
def Router.Holds (router : Router η) (r : Registration η) : Prop :=
  ∃ pathRoute ∈ router.pathRoutes, ∃ methodRoute ∈ pathRoute.methodRoutes,
    Path.segments pathRoute.pattern.template.toList = Path.segments r.template.toList ∧
    methodRoute.methods = r.methods ∧ methodRoute.handler = r.handler

theorem Builder.holds_build {config : Config} {registrations : List (Registration η)}
    {b : Builder η} (h : registerAll { config := config } registrations = .ok b)
    {r : Registration η} (hr : r ∈ registrations) : b.build.Holds r := by
  obtain ⟨definitions, rfl, rfl⟩ := registerAll_eq_ok_iff.mp h
  obtain ⟨d, hd, rfl⟩ := List.mem_map.mp hr
  have tabulates := tabulates_table config definitions
  rw [Router.Holds, pathRoutes_build]
  obtain ⟨pathRoute, hmem, hkey⟩ := tabulates.exists_route d hd
  refine ⟨pathRoute, hmem, d.methodRoute pathRoute.pattern.template, ?_, ?_, rfl, rfl⟩
  · rw [tabulates.methodRoutes_eq hmem, PathRoute.mem_explicitFirst]
    exact List.mem_map_of_mem (List.mem_filter.mpr ⟨hd, by simp [hkey]⟩)
  · exact Pattern.segments_eq_iff.mp (Pattern.key_eq_iff.mp hkey)

namespace Shared

def Event.accepted? : Event τ η → Option (Registration η)
  | .registered _ r (.ok ()) => some r
  | _ => none

def Event.table? : Event τ η → Option (Router η)
  | .took _ _ table => some table
  | _ => none

/-- The registrations that returned without an error, in the order of their steps. -/
def accepted (history : List (Event τ η)) : List (Registration η) :=
  history.filterMap Event.accepted?

def tables (history : List (Event τ η)) : List (Router η) := history.filterMap Event.table?

theorem mem_tables {history : List (Event τ η)} {t : τ} {pending : Option (Builder η)}
    {table : Router η} (h : .took t pending table ∈ history) : table ∈ tables history :=
  List.mem_filterMap.mpr ⟨_, h, rfl⟩

theorem accepted_append_singleton (history : List (Event τ η)) (e : Event τ η) :
    accepted (history ++ [e]) = accepted history ++ e.accepted?.toList := by
  rw [accepted, List.filterMap_append, ← accepted]
  cases h : e.accepted? <;> simp [h]

theorem tables_append_singleton (history : List (Event τ η)) (e : Event τ η) :
    tables (history ++ [e]) = tables history ++ e.table?.toList := by
  rw [tables, List.filterMap_append, ← tables]
  cases h : e.table? <;> simp [h]

/-- What every step keeps. -/
structure Invariant (config : Config) (history : List (Event τ η)) (s : Shared τ η)
    (b : Builder η) : Prop where
  registerAll_eq : Builder.registerAll { config := config } (accepted history) = .ok b
  consistent : Consistent b (tables history) s
  took : ∀ t pending table, .took t pending table ∈ history → pending = some b ∧ table = b.build
  answered : ∀ t q reply, .answered t q reply ∈ history →
    tables history = [b.build] ∧ reply = q.reply b.build
  published_iff : s.router.published.isSome = true ↔ ∃ t, .published t ∈ history

namespace Invariant

variable {config : Config} {history : List (Event τ η)} {s s' : Shared τ η} {b : Builder η}
  {e : Event τ η}

theorem start (config : Config) :
    Invariant config [] (start config : Shared τ η) { config := config } where
  registerAll_eq := rfl
  consistent := consistent_start config
  took := by simp
  answered := by simp
  published_iff := by simp [Shared.start, LazyRouter.new]

theorem not_took_of_unbuilt (unbuilt : tables history = []) {t : τ} {pending : Option (Builder η)}
    {table : Router η} : .took t pending table ∉ history := by
  intro hmem
  have hbuilt := mem_tables hmem
  rw [unbuilt] at hbuilt
  cases hbuilt

theorem not_answered_of_unbuilt (inv : Invariant config history s b)
    (unbuilt : tables history = []) {t : τ} {q : Question} {reply : Reply η} :
    .answered t q reply ∉ history := by
  intro hmem
  have hbuilt := (inv.answered t q reply hmem).1
  rw [unbuilt] at hbuilt
  cases hbuilt

theorem append (inv : Invariant config history s b) (haccepted : e.accepted? = none)
    (htable : e.table? = none) (consistent : Consistent b (tables history) s')
    (answered : ∀ t q reply, e = .answered t q reply →
      tables history = [b.build] ∧ reply = q.reply b.build)
    (published_iff : s'.router.published.isSome = true ↔
      s.router.published.isSome = true ∨ ∃ t, e = .published t) :
    Invariant config (history ++ [e]) s' b where
  registerAll_eq := by
    rw [accepted_append_singleton, haccepted, Option.toList_none, List.append_nil]
    exact inv.registerAll_eq
  consistent := by
    rw [tables_append_singleton, htable, Option.toList_none, List.append_nil]
    exact consistent
  took := by
    intro t pending table hmem
    rcases List.mem_append.mp hmem with hmem | hlast
    · exact inv.took t pending table hmem
    · rw [← List.mem_singleton.mp hlast] at htable
      cases htable
  answered := by
    intro t q reply hmem
    rw [tables_append_singleton, htable, Option.toList_none, List.append_nil]
    rcases List.mem_append.mp hmem with hmem | hlast
    · exact inv.answered t q reply hmem
    · exact answered t q reply (List.mem_singleton.mp hlast).symm
  published_iff := by
    rw [published_iff, inv.published_iff]
    simp [exists_or, eq_comm]

theorem register (inv : Invariant config history s b) {b' : Builder η} (t : τ) {r : Registration η}
    (hb : b.register r.template r.methods r.handler = .ok b') (unbuilt : tables history = [])
    (consistent : Consistent b' [] s') (published : s'.router.published = s.router.published) :
    Invariant config (history ++ [.registered t r (.ok ())]) s' b' where
  registerAll_eq := by
    rw [accepted_append_singleton]
    exact Builder.registerAll_append_singleton inv.registerAll_eq hb
  consistent := by
    rw [tables_append_singleton, unbuilt]
    exact consistent
  took := by
    intro t' pending table hmem
    rcases List.mem_append.mp hmem with hmem | hlast
    · exact absurd hmem (not_took_of_unbuilt unbuilt)
    · cases List.mem_singleton.mp hlast
  answered := by
    intro t' q reply hmem
    rcases List.mem_append.mp hmem with hmem | hlast
    · exact absurd hmem (inv.not_answered_of_unbuilt unbuilt)
    · cases List.mem_singleton.mp hlast
  published_iff := by
    rw [published, inv.published_iff]
    simp

theorem take (inv : Invariant config history s b) (t : τ) (unbuilt : tables history = [])
    (consistent : Consistent b [b.build] s')
    (published : s'.router.published = s.router.published) :
    Invariant config (history ++ [.took t (some b) b.build]) s' b where
  registerAll_eq := by
    rw [accepted_append_singleton]
    exact (congrArg _ (List.append_nil _)).trans inv.registerAll_eq
  consistent := by
    rw [tables_append_singleton, unbuilt]
    exact consistent
  took := by
    intro t' pending table hmem
    rcases List.mem_append.mp hmem with hmem | hlast
    · exact inv.took t' pending table hmem
    · cases List.mem_singleton.mp hlast
      exact ⟨rfl, rfl⟩
  answered := by
    intro t' q reply hmem
    rcases List.mem_append.mp hmem with hmem | hlast
    · exact absurd hmem (inv.not_answered_of_unbuilt unbuilt)
    · cases List.mem_singleton.mp hlast
  published_iff := by
    rw [published, inv.published_iff]
    simp

variable [DecidableEq τ]

theorem step (inv : Invariant config history s b) (step : Step s e s') :
    ∃ b', Invariant config (history ++ [e]) s' b' := by
  have consistent := inv.consistent
  cases step with
  | @register t r hphase =>
      rcases consistent.register r with ⟨unbuilt, b', hb, hok, hnext⟩ | ⟨⟨e, he⟩, hrouter⟩
      · rw [hok]
        exact ⟨b', inv.register t hb unbuilt hnext (LazyRouter.published_tryRegister _ _)⟩
      · rw [he, hrouter]
        refine ⟨b, inv.append rfl rfl consistent ?_ ?_⟩
        · intro t q reply h
          cases h
        · simp
  | check hphase =>
      refine ⟨b, inv.append rfl rfl consistent ?_ ?_⟩
      · intro t q reply h
        cases h
      · simp
  | ask q hphase =>
      refine ⟨b, inv.append rfl rfl (consistent.move (by rw [hphase]; rfl) rfl) ?_ ?_⟩
      · intro t q reply h
        cases h
      · simp
  | @enter t q hphase unpublished free =>
      refine ⟨b, inv.append rfl rfl (consistent.enter unpublished free t q) ?_ ?_⟩
      · intro t q reply h
        cases h
      · simp
  | @take t q hphase =>
      obtain ⟨unbuilt, hpending, htable, hnext⟩ := consistent.take hphase
      rw [hpending, htable]
      exact ⟨b, inv.take t unbuilt hnext rfl⟩
  | @publish t q table hphase =>
      obtain ⟨hbuilt, hpublished, hnext⟩ := consistent.publish hphase
      rw [← hbuilt] at hnext
      refine ⟨b, inv.append rfl rfl hnext ?_ ?_⟩
      · intro t q reply h
        cases h
      · simp [hpublished]
  | @answer t q table hphase hpublished =>
      obtain ⟨hbuilt, rfl⟩ := consistent.built_of_published hpublished
      refine ⟨b, inv.append rfl rfl (consistent.move (by rw [hphase]; rfl) rfl) ?_ ?_⟩
      · intro t q reply h
        cases h
        exact ⟨hbuilt, rfl⟩
      · simp

theorem of_run (run : Run config history s) : ∃ b, Invariant config history s b := by
  induction run with
  | start => exact ⟨_, Invariant.start config⟩
  | step run step ih =>
      obtain ⟨b, inv⟩ := ih
      exact inv.step step

end Invariant

variable [DecidableEq τ]

/-- However threads interleave, at most one table is built, from registrations that are pending and
are the accepted ones in their order; every answer comes from it, and it holds what was accepted
before the question. A registration fails only for its template until the table is built, and then
for being late, which changes nothing. -/
theorem freezes_once {config : Config} {history : List (Event τ η)} {s : Shared τ η}
    (run : Run config history s) :
    (tables history).length ≤ 1 ∧
    (∀ t pending table, .took t pending table ∈ history → ∃ b, pending = some b ∧
      table = b.build ∧ Builder.registerAll { config := config } (accepted history) = .ok b) ∧
    (∀ t q reply, .answered t q reply ∈ history → ∃ table, tables history = [table] ∧
      reply = q.reply table ∧ ∀ before after, history = before ++ .asked t q :: after →
        ∀ r ∈ accepted before, table.Holds r) ∧
    (∀ t r result s', Step s (.registered t r result) s' →
      (tables history = [] → result = (Pattern.compile r.template).map fun _ => ()) ∧
      (tables history ≠ [] → result = .error .alreadyInitialized ∧ s' = s)) ∧
    (∀ t flag s', Step s (.checked t flag) s' →
      (flag = true ↔ ∃ t', .published t' ∈ history) ∧ s' = s) := by
  obtain ⟨b, inv⟩ := Invariant.of_run run
  refine ⟨?_, ?_, ?_, ?_, ?_⟩
  · rcases inv.consistent.stage.built_eq with hbuilt | hbuilt
    · rw [hbuilt]
      exact Nat.zero_le 1
    · rw [hbuilt]
      exact Nat.le_refl 1
  · intro t pending table hmem
    obtain ⟨hpending, htable⟩ := inv.took t pending table hmem
    exact ⟨b, hpending, htable, inv.registerAll_eq⟩
  · intro t q reply hmem
    obtain ⟨hbuilt, hreply⟩ := inv.answered t q reply hmem
    refine ⟨b.build, hbuilt, hreply, ?_⟩
    intro before after heq r hr
    refine Builder.holds_build inv.registerAll_eq ?_
    rw [heq, accepted, List.filterMap_append]
    exact List.mem_append_left _ hr
  · intro t r result s' step
    cases step
    constructor
    · intro unbuilt
      have consistent := inv.consistent
      rw [unbuilt] at consistent
      exact consistent.fst_tryRegister r
    · intro hbuilt
      rw [inv.consistent.tryRegister_of_built hbuilt]
      exact ⟨rfl, rfl⟩
  · intro t flag s' step
    cases step
    exact ⟨inv.published_iff, rfl⟩

/-- One thread registers while another one asks: in time, when that one has entered the cell, and in
vain with a template that cannot be read, when it has taken the pending registrations. -/
theorem freezes_once_of_race : ∃ (history : List (Event Bool String)) (s : Shared Bool String)
    (table : Router String), Run {} history s ∧ tables history = [table] ∧
      accepted history = [⟨"/a", .only [.get], "in time"⟩] ∧
      .registered false ⟨"/\x7b", .any, "late"⟩ (.error .alreadyInitialized) ∈ history ∧
      .answered true (.routing .get "/a") (.routing (table.routing .get "/a")) ∈ history := by
  let d : Definition String := ⟨⟨"/a", [[.char 'a']], rfl⟩, .only [.get], "in time"⟩
  let b : Builder String := { fixed := [d] }
  let late : Registration String := ⟨"/\x7b", .any, "late"⟩
  have hb := Builder.register_eq_ok_iff.mpr
    ⟨d, d.definition?_registration, Eq.refl (Builder.addDefinition {} d)⟩
  have hd : LazyRouter.tryRegister { pending := some {} } d.registration =
      (.ok (), { pending := some b }) := by
    rw [LazyRouter.tryRegister_of_pending, hb]
    rfl
  obtain ⟨s, run, hr, hf, ht⟩ : ∃ s : Shared Bool String,
      Run {} [.asked true (.routing .get "/a"), .entered true] s ∧
      s.router = { pending := some {} } ∧ s.phase false = .idle ∧
      s.phase true = .inside (.routing .get "/a") :=
    ⟨_, .step (.step .start (.ask _ rfl)) (.enter rfl rfl rfl), rfl, rfl, rfl⟩
  have run := run.step (.register d.registration hf)
  rw [hr, hd] at run
  obtain ⟨s, run, hr, hf, ht⟩ : ∃ s' : Shared Bool String,
      Run {} [.asked true (.routing .get "/a"), .entered true,
        .registered false d.registration (.ok ()), .took true (some b) b.build] s' ∧
      s'.router = { pending := none } ∧ s'.phase false = .idle ∧
      s'.phase true = .holding (.routing .get "/a") b.build :=
    ⟨_, run.step (.take ht), rfl, hf, rfl⟩
  have run := run.step (.register late hf)
  rw [hr, LazyRouter.tryRegister_of_taken rfl] at run
  let history : List (Event Bool String) := [.asked true (.routing .get "/a"), .entered true,
    .registered false d.registration (.ok ()), .took true (some b) b.build,
    .registered false late (.error .alreadyInitialized), .published true,
    .answered true (.routing .get "/a") (.routing (b.build.routing .get "/a"))]
  obtain ⟨s, run⟩ : ∃ s, Run {} history s :=
    ⟨_, (run.step (.publish ht)).step (.answer (t := true) rfl rfl)⟩
  have hanswer : .answered true (.routing .get "/a") (.routing (b.build.routing .get "/a")) ∈
      history := by simp [history]
  obtain ⟨-, -, answers, -⟩ := freezes_once run
  obtain ⟨table, htables, hreply, -⟩ := answers _ _ _ hanswer
  rw [hreply] at hanswer
  exact ⟨history, s, table, run, htables, rfl, by simp [history, late], hanswer⟩

end Shared

end HttpRouting
