import HttpRouting.Proofs.Chain.Deciding
import HttpRouting.Proofs.Router.Sharing

/-!
# The steps of a run

A handler may itself be a chain, whose routers select handlers that may again be chains. Such a
handler is run with a record of what happens on the way: who receives which request, which router is
asked, and what an access log reads back. Without the record the run is the run of the handler.
-/

namespace HttpRouting

/-- A link or a handler receives a request, a router is asked, or an access log reads the request
back. -/
inductive Step where
  | received (request : Request)
  | asked (r : Router Handler)
  | readBack (request : Request)

/-- A value with the events that were logged and the steps that were taken on the way to it. -/
structure Traced (α : Type) where
  steps : List Step
  logged : Logged α

namespace Traced

variable {α β : Type}

instance : Monad Traced where
  pure a := ⟨[], pure a⟩
  bind t next := ⟨t.steps ++ (next t.logged.value).steps, t.logged >>= fun a => (next a).logged⟩

def step (s : Step) : Traced Unit := ⟨[s], pure ()⟩

def ofLogged (l : Logged α) : Traced α := ⟨[], l⟩

@[simp] theorem steps_bind (t : Traced α) (next : α → Traced β) :
    (t >>= next).steps = t.steps ++ (next t.logged.value).steps := rfl

@[simp] theorem logged_bind (t : Traced α) (next : α → Traced β) :
    (t >>= next).logged = t.logged >>= fun a => (next a).logged := rfl

end Traced

abbrev TracedHandler := Exchange → Traced (Outcome × Exchange)

/-- A match that the router gives as an answer to some request. -/
def Router.Selects (r : Router Handler) (found : RouteMatch Handler) : Prop :=
  ∃ m path, r.routing m path = .matched found

namespace Router

variable {r : Router Handler} {selected : ∀ found, r.Selects found → TracedHandler}
  {next : TracedHandler} {x : Exchange} {m : Method} {path : String} {found : RouteMatch Handler}

theorem selects (h : r.routing m path = .matched found) : r.Selects found := ⟨m, path, h⟩

def ask (r : Router Handler) (request : Request) : Traced Unit := do
  Traced.step (.asked r)
  Traced.ofLogged <| Logged.event <|
    (r.routing request.method request.path).event request.method request.path

def trace (r : Router Handler) (selected : ∀ found, r.Selects found → TracedHandler)
    (next : TracedHandler) : TracedHandler := fun x => do
  r.ask x.request
  match h : r.routing x.request.method x.request.path with
  | .matched found =>
      selected found (selects h) <| x.mapRequest fun request =>
        (request.setRoute found.methodRoute.route).setBindings found.bindings
  | .methodNotAllowed => pure (.ok .methodNotAllowed, x)
  | .notMatched => next x

theorem trace_of_matched (h : r.routing x.request.method x.request.path = .matched found) :
    r.trace selected next x = r.ask x.request >>= fun _ =>
      selected found (selects h) (x.mapRequest fun request =>
        (request.setRoute found.methodRoute.route).setBindings found.bindings) := by
  rw [trace]
  split
  · next found' h' =>
    obtain rfl : found' = found := by simpa [h] using h'.symm
    rfl
  · next h' => cases h.symm.trans h'
  · next h' => cases h.symm.trans h'

theorem trace_of_methodNotAllowed
    (h : r.routing x.request.method x.request.path = .methodNotAllowed) :
    r.trace selected next x = r.ask x.request >>= fun _ => pure (.ok .methodNotAllowed, x) := by
  rw [trace]
  split
  · next h' => cases h.symm.trans h'
  · rfl
  · next h' => cases h.symm.trans h'

theorem trace_of_notMatched (h : r.routing x.request.method x.request.path = .notMatched) :
    r.trace selected next x = r.ask x.request >>= fun _ => next x := by
  rw [trace]
  split
  · next h' => cases h.symm.trans h'
  · next h' => cases h.symm.trans h'
  · rfl

theorem logged_trace {rest : Next}
    (hselected : ∀ found h x, (selected found h x).logged = found.methodRoute.handler x)
    (hnext : ∀ x, (next x).logged = rest.run x) (x : Exchange) :
    (r.trace selected next x).logged = Link.router r rest x := by
  rw [RoutingLink.router_eq, Passage.around_of_no_reports]
  cases h : r.routing x.request.method x.request.path with
  | matched found =>
      rw [trace_of_matched h, Traced.logged_bind, hselected, ask, h]
      rfl
  | methodNotAllowed =>
      rw [trace_of_methodNotAllowed h, ask, h]
      rfl
  | notMatched =>
      rw [trace_of_notMatched h, Traced.logged_bind, hnext, ask, h]
      rfl

end Router

namespace RoutingLink

def router? : RoutingLink → Option (Router Handler)
  | .router r => some r
  | .lazyRouter _ l => some l.init.1
  | .accessLog => none
  | .filtered _ inner => inner.router?

def trace : (link : RoutingLink) →
    (∀ r found, link.router? = some r → r.Selects found → TracedHandler) → TracedHandler →
    TracedHandler
  | .router r, selected, next => fun x => do
      Traced.step (.received x.request)
      r.trace (fun found => selected r found rfl) next x
  | .lazyRouter number l, selected, next => fun x => do
      Traced.step (.received x.request)
      let r := l.init.1
      if l.isInitialized || number ∈ x.built then
        r.trace (fun found => selected r found rfl) next x
      else
        Traced.ofLogged (Logged.event r.event)
        r.trace (fun found => selected r found rfl) next { x with built := number :: x.built }
  | .accessLog, _, next => fun x => do
      Traced.step (.received x.request)
      let (outcome, x) ← next x
      Traced.step (.readBack x.request)
      Traced.ofLogged (Logged.event (Link.accessEvent outcome x.request))
      pure (outcome, x)
  | .filtered f inner, selected, next => fun x => do
      Traced.step (.received x.request)
      if f.accepts x.request.path then inner.trace selected next x else next x

theorem logged_trace (link : RoutingLink)
    {selected : ∀ r found, link.router? = some r → r.Selects found → TracedHandler}
    {next : TracedHandler} {rest : Next}
    (hselected : ∀ r found hr h x, (selected r found hr h x).logged = found.methodRoute.handler x)
    (hnext : ∀ x, (next x).logged = rest.run x) (x : Exchange) :
    (link.trace selected next x).logged = link.middleware rest x := by
  induction link with
  | router r => exact Router.logged_trace (fun found => hselected r found rfl) hnext x
  | lazyRouter number l =>
      have run := Router.logged_trace (fun found => hselected l.init.1 found rfl) hnext
      change (ite (α := Traced _) _ _ _).logged = ite _ _ _
      split
      · exact run x
      · exact congrArg (Logged.event l.init.1.event >>= fun _ => ·) (run _)
  | accessLog =>
      change ((next x).logged >>= _) = rest.run x >>= _
      rw [hnext]
      rfl
  | filtered f inner ih =>
      change (ite (α := Traced _) _ _ _).logged = ite _ _ _
      split
      · exact ih hselected
      · exact hnext x

def traceAll (last : TracedHandler) : (links : List RoutingLink) →
    (∀ link ∈ links, ∀ r found, link.router? = some r → r.Selects found → TracedHandler) →
    TracedHandler
  | [], _ => last
  | link :: rest, selected =>
      link.trace (selected link List.mem_cons_self)
        (traceAll last rest fun link h => selected link (List.mem_cons_of_mem _ h))

theorem logged_traceAll {fallback : Handler} {last : TracedHandler}
    (hlast : ∀ x, (last x).logged = fallback x) {links : List RoutingLink}
    {selected : ∀ link ∈ links, ∀ r found, link.router? = some r → r.Selects found →
      TracedHandler}
    (hselected : ∀ link hlink r found hr h x,
      (selected link hlink r found hr h x).logged = found.methodRoute.handler x) (x : Exchange) :
    (traceAll last links selected x).logged =
      (Next.ofLinks fallback (links.map middleware)).run x := by
  induction links generalizing x with
  | nil => exact hlast x
  | cons link rest ih =>
      exact logged_trace link (hselected link List.mem_cons_self)
        (ih fun link hlink => hselected link (List.mem_cons_of_mem _ hlink)) x

end RoutingLink

/-- Whether a handler leaves the matched route and the bound variables on the request as they are,
up to what is known of the variables' numbers. -/
def Handler.KeepsMatch (h : Handler) : Prop :=
  ∀ x, (h x).value.2.request.properties.route = x.request.properties.route ∧
    (h x).value.2.request.properties.bindings.map Variables.pairs =
      x.request.properties.bindings.map Variables.pairs

def Router.IsBuilt (r : Router Handler) : Prop :=
  ∃ config registrations, r = (Builder.registerEach { config := config } registrations).build

theorem LazyRouter.foldl_tryRegister {η : Type} (b : Builder η)
    (registrations : List (Registration η)) :
    registrations.foldl (fun l r => (l.tryRegister r).2) ({ pending := some b } : LazyRouter η) =
      { pending := some (b.registerEach registrations) } := by
  induction registrations generalizing b with
  | nil => rfl
  | cons r rest ih =>
      rw [List.foldl_cons, tryRegister_of_pending, Builder.registerEach, List.foldl_cons,
        ← Builder.registerEach, ← ih]
      cases b.register r.template r.methods r.handler <;> rfl

theorem LazyRouter.fst_init_foldl_tryRegister {η : Type} (config : Config)
    (registrations : List (Registration η)) :
    (registrations.foldl (fun l r => (l.tryRegister r).2) (LazyRouter.new config)).init.1 =
      (Builder.registerEach { config := config } registrations).build := by
  rw [new, foldl_tryRegister]
  rfl

theorem Builder.exists_of_selects {config : Config} {registrations : List (Registration Handler)}
    {found : RouteMatch Handler}
    (h : (registerEach { config := config } registrations).build.Selects found) :
    ∃ r ∈ registrations, found.methodRoute.handler = r.handler := by
  obtain ⟨m, path, h⟩ := h
  rw [registerEach_eq] at h
  obtain ⟨d, hd, first, -, hroute, -⟩ := exists_of_routing_eq_matched h
  obtain ⟨r, hr, hdefinition⟩ := List.mem_filterMap.mp hd
  refine ⟨r, hr, ?_⟩
  rw [hroute, r.eq_registration hdefinition]
  rfl

theorem Builder.handler_of_selects {config : Config} {r : Registration Handler}
    {found : RouteMatch Handler}
    (h : (registerEach { config := config } [r]).build.Selects found) :
    found.methodRoute.handler = r.handler := by
  obtain ⟨r', hr', hhandler⟩ := exists_of_selects h
  obtain rfl := List.mem_singleton.mp hr'
  exact hhandler

/-- A handler that keeps what a match leaves on a request, or a chain whose fallback is nested and
whose routers were built and select nested handlers only. -/
inductive NestedHandler : Handler → Type where
  | leaf {h : Handler} (keeps : h.KeepsMatch) : NestedHandler h
  | chain {h fallback : Handler} {links : List RoutingLink}
      (eq : h = Chain.dispatch ⟨links.map RoutingLink.middleware, fallback⟩)
      (built : ∀ link ∈ links, ∀ r, link.router? = some r → r.IsBuilt)
      (selected : ∀ link ∈ links, ∀ r found, link.router? = some r → r.Selects found →
        NestedHandler found.methodRoute.handler)
      (last : NestedHandler fallback) : NestedHandler h

/-- The run of a nested handler with its steps. -/
def NestedHandler.trace {h : Handler} : NestedHandler h → TracedHandler
  | .leaf _ => fun x => do
      Traced.step (.received x.request)
      Traced.ofLogged (h x)
  | .chain _ _ selected last => fun x => do
      Traced.step (.received x.request)
      RoutingLink.traceAll last.trace _
        (fun link hlink r found hr hfound => (selected link hlink r found hr hfound).trace) x

/-- Without its steps, the run of a nested handler is the run of the handler. -/
theorem NestedHandler.logged_trace {h : Handler} (t : NestedHandler h) (x : Exchange) :
    (t.trace x).logged = h x := by
  induction t generalizing x with
  | leaf => rfl
  | chain eq _ _ _ selected_ih last_ih =>
      subst eq
      exact RoutingLink.logged_traceAll last_ih selected_ih x

end HttpRouting
