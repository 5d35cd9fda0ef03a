import HttpRouting.Chain.Stock
import HttpRouting.Proofs.Chain.Deciding

/-!
# Links as programs

A link that uses the rest of its chain only by running it follows a program: it notes what happens,
runs the rest on an exchange, goes on with the answer, as often as it likes, and answers. Programs
can be carried out in any monad that can run the rest and take notes, so the run of a chain and the
record of that run are two ways of following the same programs.

A chain is a handler, so it can be the fallback of another chain. If the outer links follow
programs, they cannot tell this from one chain with all the links: the runs and their records are
the same. A link that looks at how many links there are behind it can.
-/

namespace HttpRouting

/-- A link or a handler is invoked with an exchange, or an event is logged. -/
inductive Moment (ι : Type) where
  | invoked (who : ι) (received : Exchange)
  | logged (e : Event)

namespace Moment

variable {ι : Type}

def invocation? : Moment ι → Option (ι × Exchange)
  | .invoked who received => some (who, received)
  | .logged _ => none

def events : Moment ι → List Event
  | .invoked .. => []
  | .logged e => [e]

def log (moment : Moment ι) : Logged Unit := ⟨moment.events, ()⟩

end Moment

/-- What a link does with the rest of its chain: every use of the rest is a run on some exchange,
and what comes after it may depend on the answer. -/
inductive Program (ι α : Type) where
  | answer (a : α)
  | note (moment : Moment ι) (next : Program ι α)
  | run (x : Exchange) (resume : Outcome × Exchange → Program ι α)

structure MonadMap (m n : Type → Type) [Monad m] [Monad n] where
  map {α : Type} : m α → n α
  map_pure {α : Type} (a : α) : map (pure a) = pure a
  map_bind {α β : Type} (p : m α) (next : α → m β) :
    map (p >>= next) = map p >>= fun a => map (next a)

namespace Program

variable {ι α : Type} {m n : Type → Type} [Monad m] [Monad n]

def ofLogged (run : Logged α) : Program ι α :=
  run.events.foldr (fun e next => .note (.logged e) next) (.answer run.value)

def carryOut (note : Moment ι → m Unit) (rest : Exchange → m (Outcome × Exchange)) :
    Program ι α → m α
  | .answer a => pure a
  | .note moment next => do
      note moment
      next.carryOut note rest
  | .run x resume => do
      let answer ← rest x
      (resume answer).carryOut note rest

theorem carryOut_run_answer [LawfulMonad m] (note : Moment ι → m Unit)
    (rest : Exchange → m (Outcome × Exchange)) (x : Exchange) :
    (run x answer).carryOut note rest = rest x :=
  bind_pure (rest x)

theorem map_carryOut (φ : MonadMap m n) (note : Moment ι → m Unit)
    (rest : Exchange → m (Outcome × Exchange)) (p : Program ι α) :
    φ.map (p.carryOut note rest) =
      p.carryOut (fun moment => φ.map (note moment)) (fun x => φ.map (rest x)) := by
  induction p with
  | answer a => exact φ.map_pure a
  | note moment next ih => rw [carryOut, carryOut, φ.map_bind, ih]
  | run x resume ih =>
      rw [carryOut, carryOut, φ.map_bind]
      congr 1
      funext answer
      exact ih answer

theorem carryOut_ofLogged (rest : Handler) (run : Logged α) :
    (ofLogged run : Program ι α).carryOut Moment.log rest = run := by
  obtain ⟨events, value⟩ := run
  induction events with
  | nil => rfl
  | cons e events ih =>
      change Moment.log (.logged e) >>= (fun _ => carryOut _ rest (ofLogged ⟨events, value⟩)) = _
      rw [ih]
      rfl

end Program

/-- A link that uses the rest of its chain only by running it. -/
structure RunningLink (ι : Type) where
  middleware : Middleware
  program : Exchange → Program ι (Outcome × Exchange)
  middleware_eq (next : Next) (x : Exchange) :
    middleware next x = (program x).carryOut Moment.log next.run

namespace RunningLink

variable {ι : Type} {m n : Type → Type} [Monad m] [Monad n]

def named (who : ι) (link : RunningLink ι) : RunningLink ι where
  middleware := link.middleware
  program x := .note (.invoked who x) (link.program x)
  middleware_eq := link.middleware_eq

def middlewares (links : List (RunningLink ι)) : List Middleware := links.map middleware

theorem middlewares_append (links others : List (RunningLink ι)) :
    middlewares (links ++ others) = middlewares links ++ middlewares others :=
  List.map_append

/-- Links in order and what comes behind them, carried out in some monad. -/
def carryOutAll (note : Moment ι → m Unit) (last : Exchange → m (Outcome × Exchange)) :
    List (RunningLink ι) → Exchange → m (Outcome × Exchange)
  | [] => last
  | link :: links => fun x => (link.program x).carryOut note (carryOutAll note last links)

theorem carryOutAll_append (note : Moment ι → m Unit)
    (last : Exchange → m (Outcome × Exchange)) (links others : List (RunningLink ι)) :
    carryOutAll note last (links ++ others) =
      carryOutAll note (carryOutAll note last others) links := by
  induction links with
  | nil => rfl
  | cons link links ih => rw [List.cons_append, carryOutAll, ih, carryOutAll]

theorem map_carryOutAll (φ : MonadMap m n) (note : Moment ι → m Unit)
    (last : Exchange → m (Outcome × Exchange)) (links : List (RunningLink ι)) (x : Exchange) :
    φ.map (carryOutAll note last links x) =
      carryOutAll (fun moment => φ.map (note moment)) (fun y => φ.map (last y)) links x := by
  induction links generalizing x with
  | nil => rfl
  | cons link links ih =>
      rw [carryOutAll, carryOutAll, Program.map_carryOut]
      congr 1
      funext y
      exact ih y

theorem run_ofLinks (fallback : Handler) (links : List (RunningLink ι)) :
    (Next.ofLinks fallback (middlewares links)).run = carryOutAll Moment.log fallback links := by
  induction links with
  | nil => rfl
  | cons link links ih =>
      funext x
      change link.middleware (Next.ofLinks fallback (middlewares links)) x = _
      rw [link.middleware_eq, ih, carryOutAll]

theorem dispatch_eq (fallback : Handler) (links : List (RunningLink ι)) :
    Chain.dispatch ⟨middlewares links, fallback⟩ = carryOutAll Moment.log fallback links :=
  run_ofLinks fallback links

/-- Watched links: each of them notes, under its name, when it is invoked. -/
def watched (links : List (ι × RunningLink ι)) : List (RunningLink ι) :=
  links.map fun l => l.2.named l.1

@[simp] theorem middlewares_watched (links : List (ι × RunningLink ι)) :
    middlewares (watched links) = links.map fun l => l.2.middleware := by
  simp only [middlewares, watched, List.map_map]
  rfl

@[simp] theorem watched_append (links others : List (ι × RunningLink ι)) :
    watched (links ++ others) = watched links ++ watched others :=
  List.map_append

end RunningLink

structure Recorded (σ α : Type) where
  items : List σ
  value : α

namespace Recorded

variable {σ τ ι α : Type}

instance : Monad (Recorded σ) where
  pure a := ⟨[], a⟩
  bind p next := ⟨p.items ++ (next p.value).items, (next p.value).value⟩

def expand (f : σ → List τ) : MonadMap (Recorded σ) (Recorded τ) where
  map r := ⟨r.items.flatMap f, r.value⟩
  map_pure _ := rfl
  map_bind p next := by simp [bind]

def toLogged (f : σ → List Event) : MonadMap (Recorded σ) Logged where
  map r := ⟨r.items.flatMap f, r.value⟩
  map_pure _ := rfl
  map_bind p next := by simp [bind]

def note (moment : Moment ι) : Recorded (Moment ι) Unit := ⟨[moment], ()⟩

/-- A recorded run without its invocations. -/
def logged (r : Recorded (Moment ι) α) : Logged α := (toLogged Moment.events).map r

def invocations (r : Recorded (Moment ι) α) : List (ι × Exchange) :=
  r.items.filterMap Moment.invocation?

end Recorded

/-- The record of a handler: it is invoked, and logs its events. -/
def Handler.record {ι : Type} (who : ι) (h : Handler) (x : Exchange) :
    Recorded (Moment ι) (Outcome × Exchange) :=
  ⟨.invoked who x :: (h x).events.map .logged, (h x).value⟩

theorem Handler.logged_record {ι : Type} (who : ι) (h : Handler) (x : Exchange) :
    (h.record who x).logged = h x := by
  have events : ((h x).events.map Moment.logged).flatMap (Moment.events (ι := ι)) =
      (h x).events := by
    rw [List.flatMap_map]
    exact List.flatMap_singleton' _
  rw [record, Recorded.logged, Recorded.toLogged]
  simp only [List.flatMap_cons, Moment.events, List.nil_append, events]

namespace RunningLink

variable {ι : Type}

/-- The record of a run of links and of what comes behind them. -/
def record (last : Exchange → Recorded (Moment ι) (Outcome × Exchange))
    (links : List (RunningLink ι)) : Exchange → Recorded (Moment ι) (Outcome × Exchange) :=
  carryOutAll Recorded.note last links

/-- Without its invocations, the record of a run is the run of the chain. -/
theorem logged_record {last : Exchange → Recorded (Moment ι) (Outcome × Exchange)}
    {fallback : Handler} (hlast : ∀ x, (last x).logged = fallback x)
    (links : List (RunningLink ι)) (x : Exchange) :
    (record last links x).logged = Chain.dispatch ⟨middlewares links, fallback⟩ x := by
  have note : (fun moment => (Recorded.toLogged Moment.events).map (Recorded.note moment)) =
      Moment.log (ι := ι) := by
    funext moment
    simp [Recorded.toLogged, Recorded.note, Moment.log]
  rw [dispatch_eq, record, Recorded.logged, map_carryOutAll, note]
  congr 1
  funext y
  exact hlast y

end RunningLink

/-! ## The ready-made links -/

namespace RunningLink

variable {ι : Type}

def stop (handler : Handler) : RunningLink ι where
  middleware := Link.stop handler
  program x := .ofLogged (handler x)
  middleware_eq _ x := (Program.carryOut_ofLogged _ (handler x)).symm

def tag (label : String) : RunningLink ι where
  middleware := Link.tag label
  program x := .run (x.mapRequest fun r => r.pass label) fun answer =>
    .answer (answer.1.map (Link.addTag label), answer.2)
  middleware_eq _ _ := rfl

def repeatedProgram : Nat → Exchange → Program ι (Outcome × Exchange)
  | 0, x => .run x .answer
  | again + 1, x => .run x fun answer =>
      match answer with
      | (.ok _, y) => repeatedProgram again y
      | (.error cause, y) => .answer (.error cause, y)

def repeated (again : Nat) : RunningLink ι where
  middleware := Link.repeated again
  program := repeatedProgram again
  middleware_eq next x := by
    induction again generalizing x with
    | zero => exact (Program.carryOut_run_answer _ _ x).symm
    | succ again ih =>
        rw [Link.repeated, repeatedProgram, Program.carryOut]
        congr 1
        funext answer
        obtain ⟨outcome, y⟩ := answer
        cases outcome with
        | ok response => exact ih y
        | error cause => rfl

def accessLog : RunningLink ι where
  middleware := Link.accessLog
  program x := .run x fun answer =>
    .note (.logged (Link.accessEvent answer.1 answer.2.request)) (.answer answer)
  middleware_eq _ _ := rfl

def routerProgram (who : RouteMatch Handler → ι) (r : Router Handler) (x : Exchange) :
    Program ι (Outcome × Exchange) :=
  let routing := r.routing x.request.method x.request.path
  .note (.logged (routing.event x.request.method x.request.path)) <|
    match routing with
    | .matched found =>
        let y := x.mapRequest fun request =>
          (request.setRoute found.methodRoute.route).setBindings found.bindings
        .note (.invoked (who found) y) (.ofLogged (found.methodRoute.handler y))
    | .methodNotAllowed => .answer (.ok .methodNotAllowed, x)
    | .notMatched => .run x .answer

def routingProgram (who : RouteMatch Handler → ι) :
    RoutingLink → Exchange → Program ι (Outcome × Exchange)
  | .router r, x => routerProgram who r x
  | .lazyRouter number l, x =>
      if l.isInitialized || number ∈ x.built then routerProgram who l.init.1 x
      else .note (.logged l.init.1.event)
        (routerProgram who l.init.1 { x with built := number :: x.built })
  | .accessLog, x => accessLog.program x
  | .filtered f inner, x =>
      if f.accepts x.request.path then routingProgram who inner x else .run x .answer

theorem carryOut_routerProgram (who : RouteMatch Handler → ι) (r : Router Handler) (next : Next)
    (x : Exchange) :
    Link.router r next x = (routerProgram who r x).carryOut Moment.log next.run := by
  rw [RoutingLink.router_eq, Passage.around_of_no_reports, routerProgram]
  cases r.routing x.request.method x.request.path with
  | matched found =>
      change _ = Moment.log (.logged _) >>= fun _ => Moment.log (.invoked _ _) >>= fun _ =>
        Program.carryOut Moment.log next.run (Program.ofLogged _)
      rw [Program.carryOut_ofLogged]
      rfl
  | methodNotAllowed => rfl
  | notMatched =>
      change _ = Moment.log (.logged _) >>= fun _ =>
        Program.carryOut Moment.log next.run (.run x .answer)
      rw [Program.carryOut_run_answer]
      rfl

/-- The links that answer from routers, log, or guard such links run their rest only. -/
def ofRoutingLink (who : RouteMatch Handler → ι) (link : RoutingLink) : RunningLink ι where
  middleware := link.middleware
  program := routingProgram who link
  middleware_eq next x := by
    induction link with
    | router r => exact carryOut_routerProgram who r next x
    | lazyRouter number l =>
        rw [RoutingLink.middleware, Link.lazyRouter, routingProgram]
        split
        · exact carryOut_routerProgram who l.init.1 next x
        · rw [carryOut_routerProgram who]
          rfl
    | accessLog => rfl
    | filtered f inner ih =>
        rw [RoutingLink.middleware, Link.filtered, routingProgram]
        split
        · exact ih
        · exact (Program.carryOut_run_answer _ _ x).symm

end RunningLink

section Composition

open RunningLink

variable {ι : Type}

theorem Chain.dispatch_append (outer inner : List (RunningLink ι)) (fallback : Handler) :
    dispatch ⟨middlewares (outer ++ inner), fallback⟩ =
      dispatch ⟨middlewares outer, dispatch ⟨middlewares inner, fallback⟩⟩ := by
  rw [dispatch_eq, dispatch_eq, dispatch_eq, carryOutAll_append]

theorem RunningLink.record_append (outer inner : List (RunningLink ι))
    (last : Exchange → Recorded (Moment ι) (Outcome × Exchange)) :
    record last (outer ++ inner) = record (record last inner) outer :=
  carryOutAll_append Recorded.note last outer inner

/-- A chain whose fallback is a second chain gives the response or the error, the log and the final
request that the single chain with the links of both gives, and invokes the same links and handlers
with the same requests in the same order. A chain without links is its fallback. -/
theorem dispatch_nested (outer inner : List (ι × RunningLink ι)) (who : ι) (fallback : Handler)
    (x : Exchange) :
    let links (named : List (ι × RunningLink ι)) := named.map fun l => l.2.middleware
    let nested := Chain.dispatch ⟨links outer, Chain.dispatch ⟨links inner, fallback⟩⟩ x
    let single := Chain.dispatch ⟨links (outer ++ inner), fallback⟩ x
    let nestedRecord :=
      record (record (fallback.record who) (watched inner)) (watched outer) x
    let singleRecord := record (fallback.record who) (watched (outer ++ inner)) x
    nested = single ∧ nestedRecord.invocations = singleRecord.invocations ∧
      nestedRecord = singleRecord ∧ nestedRecord.logged = nested ∧ singleRecord.logged = single ∧
      Chain.dispatch ⟨[], fallback⟩ x = fallback x := by
  intro links nested single nestedRecord singleRecord
  have runs : nested = single := by
    have append := Chain.dispatch_append (watched outer) (watched inner) fallback
    rw [← watched_append, middlewares_watched, middlewares_watched, middlewares_watched] at append
    exact (congrFun append x).symm
  have records : nestedRecord = singleRecord := by
    change record _ _ x = record _ (watched (outer ++ inner)) x
    rw [watched_append, record_append]
  have shown : singleRecord.logged = single := by
    have logged := logged_record (fallback.logged_record who) (watched (outer ++ inner)) x
    rwa [middlewares_watched] at logged
  refine ⟨runs, ?_, records, ?_, shown, rfl⟩
  · rw [records]
  · rw [records, runs, shown]

/-- A link that leaves a description of its rest on the request does more than run it. -/
theorem RunningLink.middleware_ne_describeNext (link : RunningLink ι) :
    link.middleware ≠ Link.describeNext := by
  intro h
  let pass : Handler := fun x => pure (.ok .notFound, x)
  let x : Exchange := { request := { target := { path := "/" } } }
  have same : Link.describeNext ⟨0, pass⟩ x = Link.describeNext ⟨1, pass⟩ x := by
    rw [← h, link.middleware_eq, link.middleware_eq]
  have trails := congrArg (fun run => run.value.2.request.trail) same
  revert trails
  decide

end Composition

end HttpRouting
